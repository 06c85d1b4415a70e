import Mathlib.Data.List.Perm.Basic
import Mathlib.Order.MinMax

/-!
# Choices that do not depend on the order of what is chosen from

A fold that keeps the better of two by some **key** ends with the greatest key there is. So what
can be read off the key of its outcome is the same for every order of the list.
-/

namespace MoqGo.Lib

variable {α κ : Type*} [LinearOrder κ] {key : α → κ} {pick : α → α → α}

theorem key_foldl (hpick : ∀ a b, key (pick a b) = max (key a) (key b)) (l : List α) (a : α) :
    key (l.foldl pick a) = (l.map key).foldl max (key a) := by
  induction l generalizing a with
  | nil => rfl
  | cons b l ih => rw [List.foldl_cons, ih, hpick, List.map_cons, List.foldl_cons]

/-- **Order does not matter.** -/
theorem key_foldl_perm (hpick : ∀ a b, key (pick a b) = max (key a) (key b)) {l l' : List α}
    (hperm : l.Perm l') (a : α) : key (l.foldl pick a) = key (l'.foldl pick a) := by
  rw [key_foldl hpick, key_foldl hpick]
  exact (hperm.map key).foldl_eq _

theorem foldl_max_le_iff {l : List κ} {a b : κ} : l.foldl max a ≤ b ↔ a ≤ b ∧ ∀ x ∈ l, x ≤ b := by
  induction l generalizing a with
  | nil => simp
  | cons x l ih => rw [List.foldl_cons, ih, max_le_iff, List.forall_mem_cons, and_assoc]

end MoqGo.Lib
