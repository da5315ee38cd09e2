import Mathlib.Tactic
import Mathlib.Logic.Function.Basic

/-!
# Pools of serial numbers

A pool gives out serial numbers in order until its limit is reached, and
remembers the last number that each holder was given.  That every number was
given out before the counter, and to one holder, is part of the type.
-/

namespace SerialPools

structure SerialPool (ν : Type*) where
  first : ℕ
  next : ℕ
  limit : ℕ
  serial : ν → Option ℕ
  first_le : first ≤ next
  next_le : next ≤ limit
  issued : ∀ holder k, serial holder = some k → first ≤ k ∧ k < next
  distinct : ∀ holder holder' k, serial holder = some k →
    serial holder' = some k → holder = holder'

namespace SerialPool

variable {ν : Type*}

def untouched {first limit : ℕ} (h : first ≤ limit) : SerialPool ν where
  first := first
  next := first
  limit := limit
  serial := fun _ => none
  first_le := le_refl _
  next_le := h
  issued := by simp
  distinct := by simp

variable [DecidableEq ν]

theorem serial_update_some
    {serial : ν → Option ℕ} {receiver holder : ν} {next k : ℕ}
    (h : Function.update serial receiver (some next) holder = some k) :
    holder = receiver ∧ k = next ∨
      holder ≠ receiver ∧ serial holder = some k := by
  by_cases heq : holder = receiver
  · left
    rw [heq, Function.update_self, Option.some.injEq] at h
    exact ⟨heq, h.symm⟩
  · right
    rw [Function.update_of_ne heq] at h
    exact ⟨heq, h⟩

/-- The receiver gets the next number in place of the one it had. -/
def give (pool : SerialPool ν) (h : pool.next < pool.limit) (receiver : ν) :
    SerialPool ν where
  first := pool.first
  next := pool.next + 1
  limit := pool.limit
  serial := Function.update pool.serial receiver (some pool.next)
  first_le := pool.first_le.trans (Nat.le_succ _)
  next_le := h
  issued := by
    intro holder k hk
    rcases serial_update_some hk with ⟨-, rfl⟩ | ⟨-, hold⟩
    · exact ⟨pool.first_le, Nat.lt_succ_self _⟩
    · have hbounds := pool.issued holder k hold
      exact ⟨hbounds.1, hbounds.2.trans (Nat.lt_succ_self _)⟩
  distinct := by
    intro holder holder' k hk hk'
    rcases serial_update_some hk with ⟨hnew, hvalue⟩ | ⟨-, hold⟩
    · rcases serial_update_some hk' with ⟨hnew', -⟩ | ⟨-, hold'⟩
      · rw [hnew, hnew']
      · have hbounds := pool.issued holder' k hold'
        omega
    · rcases serial_update_some hk' with ⟨-, hvalue⟩ | ⟨-, hold'⟩
      · have hbounds := pool.issued holder k hold
        omega
      · exact pool.distinct holder holder' k hold hold'

@[simp] theorem give_next
    (pool : SerialPool ν) (h : pool.next < pool.limit) (receiver : ν) :
    (pool.give h receiver).next = pool.next + 1 := rfl

@[simp] theorem give_serial
    (pool : SerialPool ν) (h : pool.next < pool.limit) (receiver : ν) :
    (pool.give h receiver).serial =
      Function.update pool.serial receiver (some pool.next) := rfl

end SerialPool

end SerialPools
