import Mathlib.Tactic

/-!
# Collecting distinct items

A collection keeps every item it has not seen before, in the order in which
the items came.  That its items are distinct is part of the type, and
`items_addAll` says what a whole sequence of additions leaves.
-/

namespace DistinctItems

variable {α : Type*}

structure Collection (α : Type*) where
  items : List α
  distinct : items.Nodup

def Collection.empty : Collection α := ⟨[], List.nodup_nil⟩

section Add

variable [BEq α] [LawfulBEq α]

def Collection.add (known : Collection α) (item : α) : Collection α :=
  if h : item ∈ known.items then known
  else
    { items := known.items ++ [item]
      distinct := by
        rw [List.nodup_append]
        refine ⟨known.distinct, List.nodup_singleton item, ?_⟩
        intro a ha b hb heq
        rw [List.mem_singleton] at hb
        exact h (by rwa [← hb, ← heq]) }

def Collection.addAll (known : Collection α) (items : List α) :
    Collection α :=
  items.foldl Collection.add known

variable {known : Collection α} {item : α}

theorem Collection.add_of_mem (h : item ∈ known.items) :
    known.add item = known := by
  unfold Collection.add
  rw [dif_pos h]

theorem Collection.items_add_of_not_mem (h : item ∉ known.items) :
    (known.add item).items = known.items ++ [item] := by
  unfold Collection.add
  rw [dif_neg h]

/-- The items that were there, then the new ones in order of first addition. -/
theorem Collection.items_addAll (known : Collection α) (items : List α) :
    (known.addAll items).items =
      known.items ++ (items.removeAll known.items).eraseDups := by
  induction items generalizing known with
  | nil => simp [Collection.addAll, List.removeAll]
  | cons item items ih =>
      rw [Collection.addAll, List.foldl_cons]
      change ((known.add item).addAll items).items = _
      rw [ih]
      by_cases h : item ∈ known.items
      · simp [Collection.add_of_mem h, List.removeAll, h]
      · have hremove : items.removeAll (known.items ++ [item]) =
            (items.removeAll known.items).filter fun b => !b == item := by
          unfold List.removeAll
          rw [List.filter_filter]
          apply List.filter_congr
          intro b _
          rw [Bool.eq_iff_iff]
          simp [and_comm]
        have hcons : (item :: items).removeAll known.items =
            item :: items.removeAll known.items := by
          simp [List.removeAll, h]
        rw [Collection.items_add_of_not_mem h, hremove, hcons,
          List.eraseDups_cons, List.append_assoc]
        rfl

theorem Collection.items_addAll_empty (items : List α) :
    (Collection.empty.addAll items).items = items.eraseDups := by
  simp [Collection.items_addAll, Collection.empty, List.removeAll]

end Add

/-- A collection has room for one item only as long as the items are all the
same. -/
theorem Collection.length_le_one_iff (known : Collection α) :
    known.items.length ≤ 1 ↔
      ∀ a ∈ known.items, ∀ b ∈ known.items, a = b := by
  have hdistinct := known.distinct
  revert hdistinct
  cases known.items with
  | nil => simp
  | cons first rest =>
      intro hdistinct
      cases rest with
      | nil => simp
      | cons second rest =>
          simp only [List.length_cons]
          constructor
          · intro h
            omega
          · intro h
            have hsame : first = second := h first (by simp) second (by simp)
            simp [hsame] at hdistinct

end DistinctItems
