import Mathlib.Order.Basic
import Mathlib.Tactic.Common

/-!
# Slots of a ring, counted from its head

In a ring of `n` slots with its head at `h`, slot `i` is `ringOffset n h i` slots after the head.
A writer that fills the head slot and moves on finds every other slot one closer, and the slot it
filled the furthest: that is all a first-in-first-out argument needs.
-/

namespace MoqGo.Lib

/-- How many slots `i` is after the head `h`. -/
def ringOffset (n h i : Nat) : Nat := if h ≤ i then i - h else i + n - h

variable {n h i : Nat}

theorem ringOffset_lt (hh : h < n) (hi : i < n) : ringOffset n h i < n := by
  unfold ringOffset
  split_ifs <;> omega

@[simp] theorem ringOffset_self : ringOffset n h h = 0 := by
  simp [ringOffset]

theorem ringOffset_pos (hh : h < n) (hi : i ≠ h) : 0 < ringOffset n h i := by
  unfold ringOffset
  split_ifs <;> omega

theorem succ_mod (hh : h < n) : (h + 1) % n = if h + 1 = n then 0 else h + 1 := by
  split_ifs with heq
  · rw [heq, Nat.mod_self]
  · exact Nat.mod_eq_of_lt (by omega)

/-- The head moves one slot towards every slot but its own, -/
theorem ringOffset_next (hh : h < n) (hi : i < n) (hne : i ≠ h) :
    ringOffset n ((h + 1) % n) i + 1 = ringOffset n h i := by
  rw [succ_mod hh]
  unfold ringOffset
  split_ifs <;> omega

/-- which is now the furthest. -/
theorem ringOffset_next_self (hh : h < n) : ringOffset n ((h + 1) % n) h + 1 = n := by
  rw [succ_mod hh]
  unfold ringOffset
  split_ifs <;> omega

end MoqGo.Lib
