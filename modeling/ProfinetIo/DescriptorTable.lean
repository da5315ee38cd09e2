import Mathlib.Tactic

/-!
# Descriptors of a process

The open descriptors of a process are a finite set.  A call that creates one
answers with a descriptor that was not open, or fails; releasing the answer
again undoes the call, and releasing the answer of a failed call does nothing.
-/

namespace DescriptorTable

variable {α : Type*} [DecidableEq α]

/-- The table after a call that creates a descriptor has answered `created`;
an answer that is open already is impossible. -/
def create (created : Option α) (opened : Finset α) : Option (Finset α) :=
  match created with
  | none => some opened
  | some fd => if fd ∈ opened then none else some (insert fd opened)

def release (fd : Option α) (opened : Finset α) : Finset α :=
  match fd with
  | none => opened
  | some fd => opened.erase fd

variable {created : Option α} {opened next : Finset α}

theorem release_of_create (h : create created opened = some next) :
    release created next = opened := by
  cases created with
  | none =>
      cases h
      rfl
  | some fd =>
      simp only [create] at h
      split_ifs at h with hfresh
      cases h
      exact Finset.erase_insert hfresh

theorem eq_of_create_iff (h : create created opened = some next) :
    next = opened ↔ created = none := by
  cases created with
  | none =>
      cases h
      exact iff_of_true rfl rfl
  | some fd =>
      simp only [create] at h
      split_ifs at h with hfresh
      cases h
      simpa using hfresh

theorem subset_of_create (h : create created opened = some next) :
    opened ⊆ next := by
  cases created with
  | none =>
      cases h
      exact Finset.Subset.refl opened
  | some fd =>
      simp only [create] at h
      split_ifs at h
      cases h
      exact Finset.subset_insert fd opened

theorem mem_of_create {fd : α} (h : create (some fd) opened = some next) :
    fd ∈ next := by
  simp only [create] at h
  split_ifs at h
  cases h
  exact Finset.mem_insert_self fd opened

theorem card_of_create (h : create created opened = some next) :
    next.card = opened.card + created.toList.length := by
  cases created with
  | none =>
      cases h
      rfl
  | some fd =>
      simp only [create] at h
      split_ifs at h with hfresh
      cases h
      exact Finset.card_insert_of_notMem hfresh

end DescriptorTable
