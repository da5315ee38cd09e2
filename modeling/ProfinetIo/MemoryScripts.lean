import ProfinetIo.TransitionRuns
import Mathlib.Tactic

/-!
# What calls do to the heap

The script of a call lists its allocations and releases in their order.  A
block is known by the variable that holds its address, and it can be released
only through it, so what a call still holds when it returns is lost.
-/

namespace MemoryScripts

open TransitionRuns

inductive MemoryOp (ν : Type*) where
  | allocate (name : ν) (size : ℕ)
  | release (name : ν)

variable {ν : Type*}

def bytesOf (blocks : List (ν × ℕ)) : ℕ := (blocks.map Prod.snd).sum

@[simp] theorem bytesOf_nil : bytesOf ([] : List (ν × ℕ)) = 0 := rfl

@[simp] theorem bytesOf_cons (block : ν × ℕ) (blocks : List (ν × ℕ)) :
    bytesOf (block :: blocks) = block.2 + bytesOf blocks := by
  simp [bytesOf]

theorem bytesOf_append (blocks kept : List (ν × ℕ)) :
    bytesOf (blocks ++ kept) = bytesOf blocks + bytesOf kept := by
  simp [bytesOf]

theorem bytesOf_eraseP_le (p : ν × ℕ → Bool) (blocks : List (ν × ℕ)) :
    bytesOf (blocks.eraseP p) ≤ bytesOf blocks :=
  List.Sublist.sum_le_sum (List.eraseP_sublist.map Prod.snd)
    fun _ _ => Nat.zero_le _

variable [DecidableEq ν]

def after (blocks : List (ν × ℕ)) : MemoryOp ν → List (ν × ℕ)
  | .allocate name size => (name, size) :: blocks
  | .release name => blocks.eraseP fun block => block.1 = name

/-- The bytes that a call with this script never gives back. -/
def lost (script : List (MemoryOp ν)) : ℕ := bytesOf (script.foldl after [])

/-- Blocks that a script does not release stay as they are. -/
theorem foldl_after_append
    {script : List (MemoryOp ν)} {kept : List (ν × ℕ)}
    (hkept : ∀ name, .release name ∈ script → name ∉ kept.map Prod.fst)
    (blocks : List (ν × ℕ)) :
    script.foldl after (blocks ++ kept) = script.foldl after blocks ++ kept := by
  induction script generalizing blocks with
  | nil => rfl
  | cons op script ih =>
      have hrest := ih fun name hname =>
        hkept name (List.mem_cons_of_mem op hname)
      cases op with
      | allocate name size => exact hrest ((name, size) :: blocks)
      | release name =>
          have hmissing := hkept name List.mem_cons_self
          have hall : ∀ block ∈ kept, ¬ decide (block.1 = name) = true := by
            intro block hblock hname
            exact hmissing (of_decide_eq_true hname ▸
              List.mem_map_of_mem hblock)
          have herase : after (blocks ++ kept) (.release name) =
              after blocks (.release name) ++ kept := by
            rw [after, after, List.eraseP_append, List.eraseP_of_forall_not hall]
            split_ifs with hany
            · rfl
            · have hnone : ∀ block ∈ blocks,
                  ¬ decide (block.1 = name) = true := fun block hblock h =>
                hany (List.any_eq_true.mpr ⟨block, hblock, h⟩)
              rw [List.eraseP_of_forall_not hnone]
          rw [List.foldl_cons, herase, hrest, List.foldl_cons]

theorem lost_append
    {script script' : List (MemoryOp ν)}
    (hkept : ∀ name, .release name ∈ script' →
      name ∉ (script.foldl after []).map Prod.fst) :
    lost (script ++ script') = lost script + lost script' := by
  have hframe := foldl_after_append hkept []
  rw [List.nil_append] at hframe
  rw [lost, List.foldl_append, hframe, bytesOf_append, Nat.add_comm]
  rfl

/-- One operation of a call in a heap of `limit` bytes of which others use
`used`.  An allocation needs room, and a release a block. -/
def perform (limit used : ℕ) (blocks : List (ν × ℕ)) (op : MemoryOp ν) :
    Option (List (ν × ℕ)) :=
  match op with
  | .allocate _ size =>
      if used + bytesOf blocks + size ≤ limit then some (after blocks op)
      else none
  | .release name =>
      if name ∈ blocks.map Prod.fst then some (after blocks op) else none

def usedAfter (limit used : ℕ) (script : List (MemoryOp ν)) : Option ℕ :=
  (run (perform limit used) [] script).map fun blocks =>
    used + bytesOf blocks

variable {limit used next : ℕ} {script : List (MemoryOp ν)}

theorem perform_cases
    {blocks blocks' : List (ν × ℕ)} {op : MemoryOp ν}
    (h : perform limit used blocks op = some blocks') :
    blocks' = after blocks op ∧
      (used + bytesOf blocks ≤ limit → used + bytesOf blocks' ≤ limit) := by
  cases op with
  | allocate name size =>
      simp only [perform] at h
      split_ifs at h with hfits
      cases h
      refine ⟨rfl, fun _ => ?_⟩
      rw [after, bytesOf_cons]
      omega
  | release name =>
      simp only [perform] at h
      split_ifs at h
      cases h
      refine ⟨rfl, fun hroom => ?_⟩
      have hless :=
        bytesOf_eraseP_le (fun block => decide (block.1 = name)) blocks
      rw [after]
      omega

theorem run_perform
    {blocks blocks' : List (ν × ℕ)}
    (h : run (perform limit used) blocks script = some blocks') :
    blocks' = script.foldl after blocks := by
  induction script generalizing blocks with
  | nil =>
      cases h
      rfl
  | cons op script ih =>
      obtain ⟨following, hfollowing, hrest⟩ := Option.bind_eq_some_iff.mp h
      rw [ih hrest, (perform_cases hfollowing).1, List.foldl_cons]

/-- What a call uses up is what it loses, and it never exceeds the limit. -/
theorem usedAfter_cases (h : usedAfter limit used script = some next) :
    next = used + lost script ∧ (used ≤ limit → next ≤ limit) := by
  obtain ⟨blocks, hblocks, rfl⟩ := Option.map_eq_some_iff.mp h
  refine ⟨by rw [run_perform hblocks, lost], fun hroom => ?_⟩
  exact run_invariant (fun blocks => used + bytesOf blocks ≤ limit)
    (fun _ _ _ hblocks hop => (perform_cases hop).2 hblocks)
    (by simpa using hroom) hblocks

theorem usedAfter_allocate (limit used : ℕ) (name : ν) (size : ℕ) :
    usedAfter limit used [.allocate name size] =
      if used + size ≤ limit then some (used + size) else none := by
  by_cases hfits : used + size ≤ limit
  · simp [usedAfter, run, perform, after, hfits]
  · simp [usedAfter, run, perform, hfits]

end MemoryScripts
