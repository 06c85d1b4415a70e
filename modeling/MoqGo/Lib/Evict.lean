import Mathlib.Data.List.Sort
import Mathlib.Data.List.Perm.Lattice

/-!
# Evicting the lowest elements of a set

A set, as a list without repetitions, loses its `n` lowest elements: the list is sorted, and the
first `n` of the sorted list are erased from it one by one. **What goes is below all that stays**
(`mem_evict_or`), and the numbers are right (`length_evict`).
-/

namespace MoqGo.Lib

open List

variable {α : Type*} [DecidableEq α] (r : α → α → Prop) [DecidableRel r] {n : Nat} {l : List α}

/-- The list without its `n` lowest elements. -/
def evict (n : Nat) (l : List α) : List α := ((l.insertionSort r).take n).foldl List.erase l

theorem evict_eq_diff (n : Nat) (l : List α) : evict r n l = l.diff ((l.insertionSort r).take n) :=
  (diff_eq_foldl _ _).symm

theorem nodup_evict (hl : l.Nodup) : (evict r n l).Nodup := by
  rw [evict_eq_diff]
  exact hl.diff

theorem evict_perm_drop (hl : l.Nodup) : (evict r n l).Perm ((l.insertionSort r).drop n) := by
  have hperm := perm_insertionSort r l
  have hsorted : ((l.insertionSort r).take n ++ (l.insertionSort r).drop n).Nodup := by
    rw [take_append_drop]
    exact hperm.nodup_iff.mpr hl
  obtain ⟨-, hdrop, hdisjoint⟩ := nodup_append.mp hsorted
  rw [perm_ext_iff_of_nodup (nodup_evict r hl) hdrop]
  intro a
  rw [evict_eq_diff, hl.mem_sdiff_iff, ← hperm.mem_iff]
  conv_lhs => rw [← take_append_drop n (l.insertionSort r), mem_append]
  constructor
  · intro h
    exact h.1.resolve_left (by simpa using h.2)
  · intro h
    exact ⟨.inr h, fun h' => hdisjoint a (by simpa using h') a h rfl⟩

theorem length_evict (hl : l.Nodup) : (evict r n l).length = l.length - n := by
  rw [(evict_perm_drop r hl).length_eq, length_drop, (perm_insertionSort r l).length_eq]

theorem mem_of_mem_evict (hl : l.Nodup) {a : α} (ha : a ∈ evict r n l) : a ∈ l := by
  rw [evict_eq_diff, hl.mem_sdiff_iff] at ha
  exact ha.1

/-- An element stays, or it is below all that stay. -/
theorem mem_evict_or [Std.Total r] [IsTrans α r] (hl : l.Nodup) {a : α} (ha : a ∈ l) :
    a ∈ evict r n l ∨ ∀ b ∈ evict r n l, r a b := by
  have hsorted := pairwise_insertionSort r l
  rw [← take_append_drop n (l.insertionSort r), pairwise_append] at hsorted
  rw [← (perm_insertionSort r l).mem_iff, ← take_append_drop n (l.insertionSort r),
    mem_append] at ha
  rcases ha with ha | ha
  · refine .inr fun b hb => ?_
    exact hsorted.2.2 a ha b ((evict_perm_drop r hl).mem_iff.mp hb)
  · exact .inl ((evict_perm_drop r hl).mem_iff.mpr ha)

end MoqGo.Lib
