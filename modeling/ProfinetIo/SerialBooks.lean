import Mathlib.Tactic
import Mathlib.Logic.Function.Basic

/-!
# Books of serial numbers

A book has an entry for each key that was registered: blank, or with the last
serial number that was assigned to the key.  Registering a key again blanks its
entry.  All keys take their numbers from one counter, which stops at a limit.
-/

namespace SerialBooks

variable {κ : Type*}

structure Book (κ : Type*) where
  next : ℕ
  limit : ℕ
  entries : κ → Option (Option ℕ)

inductive Order (κ : Type*) where
  | register (key : κ)
  | assign (key : κ)

namespace Book

def opened (first limit : ℕ) : Book κ := ⟨first, limit, fun _ => none⟩

/-- The keys that a number can be assigned to. -/
def Serves (book : Book κ) (key : κ) : Prop :=
  book.next < book.limit ∧ book.entries key ≠ none

variable [DecidableEq κ]

def register (book : Book κ) (key : κ) : Book κ :=
  { book with entries := Function.update book.entries key (some none) }

def assign (book : Book κ) (key : κ) : Book κ :=
  if book.next < book.limit ∧ book.entries key ≠ none then
    { book with
      next := book.next + 1
      entries := Function.update book.entries key (some (some book.next)) }
  else book

def apply (book : Book κ) : Order κ → Book κ
  | .register key => book.register key
  | .assign key => book.assign key

def applyAll (book : Book κ) (orders : List (Order κ)) : Book κ :=
  orders.foldl apply book

@[simp] theorem applyAll_cons (book : Book κ) (order : Order κ)
    (orders : List (Order κ)) :
    book.applyAll (order :: orders) = (book.apply order).applyAll orders :=
  rfl

variable {book : Book κ} {key : κ}

theorem entries_register (book : Book κ) (key other : κ) :
    (book.register key).entries other =
      if other = key then some none else book.entries other :=
  Function.update_apply book.entries key (some none) other

theorem assign_of_serves (h : book.Serves key) :
    book.assign key =
      { book with
        next := book.next + 1
        entries :=
          Function.update book.entries key (some (some book.next)) } :=
  if_pos h

theorem assign_of_not_serves (h : ¬ book.Serves key) :
    book.assign key = book :=
  if_neg h

theorem entries_assign_of_serves (h : book.Serves key) (other : κ) :
    (book.assign key).entries other =
      if other = key then some (some book.next) else book.entries other := by
  rw [assign_of_serves h]
  exact Function.update_apply book.entries key _ other

/-- The numbers in a book lie between the first and the next. -/
structure Within (first : ℕ) (book : Book κ) : Prop where
  lower : first ≤ book.next
  upper : book.next ≤ book.limit
  entries : ∀ key serial, book.entries key = some (some serial) →
    first ≤ serial ∧ serial < book.next

omit [DecidableEq κ] in
theorem Within.opened {first limit : ℕ} (h : first ≤ limit) :
    Within first (opened first limit : Book κ) :=
  ⟨le_refl _, h, nofun⟩

theorem Within.apply {first : ℕ} (h : Within first book) (order : Order κ) :
    Within first (book.apply order) := by
  cases order with
  | register key =>
      refine ⟨h.lower, h.upper, ?_⟩
      intro other serial hserial
      change (book.register key).entries other = _ at hserial
      rw [entries_register] at hserial
      split_ifs at hserial
      · cases hserial
      · exact h.entries other serial hserial
  | assign key =>
      change Within first (book.assign key)
      by_cases hserves : book.Serves key
      · have hlower := h.lower
        have hroom := hserves.1
        refine ⟨?_, ?_, ?_⟩
        · rw [assign_of_serves hserves]
          exact hlower.trans (Nat.le_succ _)
        · rw [assign_of_serves hserves]
          exact hroom
        · intro other serial hserial
          rw [entries_assign_of_serves hserves] at hserial
          rw [assign_of_serves hserves]
          change first ≤ serial ∧ serial < book.next + 1
          split_ifs at hserial
          · cases hserial
            omega
          · have hbounds := h.entries other serial hserial
            omega
      · rw [assign_of_not_serves hserves]
        exact h

end Book

end SerialBooks
