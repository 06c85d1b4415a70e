import Mathlib.Data.List.Sort

/-!
# Dropping what the next element makes superfluous

`absorb p` goes through a list once and leaves out every element the one after it absorbs. Over
a list sorted by some key, in which elements with equal keys absorb each other, what is left is
**strictly** sorted (`absorb_pairwise`). `sortAbsorb_pairwise` is that for a list sorted on the
spot: what it asks of the elements is asked of each two of them, in no particular order.

What absorbs is of the kind of what it absorbs. So elements of a kind that is never absorbed all
stay (`filter_absorb`), and the first element from some point on keeps its kind (`find_absorb`).
-/

namespace MoqGo.Lib

open List

variable {α κ : Type*} [LinearOrder κ] {p : α → α → Bool} {l : List α}

/-- The list without the elements that the one right after them absorbs. -/
def absorb (p : α → α → Bool) : List α → List α
  | [] => []
  | [a] => [a]
  | a :: b :: l => if p a b then absorb p (b :: l) else a :: absorb p (b :: l)

theorem absorb_sublist (p : α → α → Bool) (l : List α) : (absorb p l).Sublist l := by
  induction l with
  | nil => exact .slnil
  | cons a l ih =>
    cases l with
    | nil => exact .refl _
    | cons b l =>
      unfold absorb
      split_ifs
      · exact ih.cons a
      · exact ih.cons_cons a

/-- **What is left of a sorted list is strictly sorted.** -/
theorem absorb_pairwise {key : α → κ} (hsorted : l.Pairwise fun a b => key a ≤ key b)
    (habsorb : l.Pairwise fun a b => key a = key b → p a b = true) :
    (absorb p l).Pairwise fun a b => key a < key b := by
  induction l with
  | nil => exact .nil
  | cons a l ih =>
    cases l with
    | nil => exact pairwise_singleton _ _
    | cons b l =>
      obtain ⟨hle, hsorted⟩ := pairwise_cons.mp hsorted
      obtain ⟨hab, habsorb⟩ := pairwise_cons.mp habsorb
      have hrest := ih hsorted habsorb
      unfold absorb
      split_ifs with hp
      · exact hrest
      · refine pairwise_cons.mpr ⟨?_, hrest⟩
        -- `a` is strictly below `b`, and `b` is at the bottom of the rest
        have hlt : key a < key b :=
          lt_of_le_of_ne (hle b (by simp)) fun h => hp (hab b (by simp) h)
        intro c hc
        rcases mem_cons.mp ((absorb_sublist p _).subset hc) with rfl | hc
        · exact hlt
        · exact hlt.trans_le ((pairwise_cons.mp hsorted).1 c hc)

theorem pairwise_sort (key : α → κ) {r : α → α → Prop} [DecidableRel r]
    (hr : ∀ a b, r a b ↔ key a ≤ key b) (l : List α) :
    (l.insertionSort r).Pairwise fun a b => key a ≤ key b := by
  have : Std.Total r := ⟨fun a b => by rw [hr, hr]; exact le_total _ _⟩
  have : IsTrans α r := ⟨fun a b c => by rw [hr, hr, hr]; exact le_trans⟩
  exact (pairwise_insertionSort r l).imp fun {a b} h => (hr a b).mp h

/-- **Sorting, then absorbing**: a strictly sorted list, if any two elements with one key absorb
    each other. -/
theorem sortAbsorb_pairwise (key : α → κ) {r : α → α → Prop} [DecidableRel r]
    (hr : ∀ a b, r a b ↔ key a ≤ key b)
    (habsorb : l.Pairwise fun a b => key a = key b → p a b = true ∧ p b a = true) :
    (absorb p (l.insertionSort r)).Pairwise fun a b => key a < key b := by
  have hsym : ∀ {a b}, (key a = key b → p a b = true ∧ p b a = true) →
      key b = key a → p b a = true ∧ p a b = true := fun h heq => (h heq.symm).symm
  have hperm := (perm_insertionSort r l).symm
  refine absorb_pairwise (pairwise_sort key hr l) ?_
  exact ((hperm.pairwise_iff hsym).mp habsorb).imp fun h heq => (h heq).1

theorem filter_absorb {keep : α → Bool} (hkeep : ∀ a b, p a b = true → keep a = false)
    (l : List α) :
    (absorb p l).filter keep = l.filter keep := by
  induction l with
  | nil => rfl
  | cons a l ih =>
    cases l with
    | nil => rfl
    | cons b l =>
      unfold absorb
      split_ifs with hp
      · rw [ih, filter_cons (x := a), hkeep a b hp, if_neg Bool.false_ne_true]
      · rw [filter_cons, filter_cons (x := a), ih]

/-- The first element that passes an upward closed test is at most any other that does. -/
theorem exists_find_le {key : α → κ} {q : α → Bool} {z : α}
    (hsorted : l.Pairwise fun a b => key a ≤ key b) (hz : z ∈ l) (hq : q z = true) :
    ∃ e, l.find? q = some e ∧ key e ≤ key z := by
  cases hf : l.find? q with
  | none => exact absurd hq (List.find?_eq_none.mp hf z hz)
  | some e =>
    obtain ⟨-, before, after, rfl, hbefore⟩ := List.find?_eq_some_iff_append.mp hf
    refine ⟨e, rfl, ?_⟩
    rcases mem_append.mp hz with hz | hz
    · exact absurd hq (by simpa using hbefore z hz)
    · rcases mem_cons.mp hz with rfl | hz
      · exact le_rfl
      · exact (pairwise_cons.mp (pairwise_append.mp hsorted).2.1).1 z hz

/-- **The first element from some point on keeps its kind**: it stays, or what is first then has
    absorbed it. -/
theorem find_absorb {q : α → Bool} (kind : α → Prop) (hkind : ∀ a b, p a b = true → kind a → kind b)
    {e : α} (hup : l.Pairwise fun a b => q a = true → q b = true) (hfind : l.find? q = some e)
    (he : kind e) : ∃ e', (absorb p l).find? q = some e' ∧ kind e' := by
  induction l generalizing e with
  | nil => cases hfind
  | cons a l ih =>
    obtain ⟨hfrom, hup⟩ := pairwise_cons.mp hup
    cases l with
    | nil => exact ⟨e, hfind, he⟩
    | cons b l =>
      rw [List.find?_cons] at hfind
      unfold absorb
      cases hq : q a with
      | false =>
        rw [hq] at hfind
        obtain ⟨e', hfind', he'⟩ := ih hup hfind he
        split_ifs
        · exact ⟨e', hfind', he'⟩
        · exact ⟨e', by rw [List.find?_cons, hq, hfind'], he'⟩
      | true =>
        simp only [hq] at hfind
        cases hfind
        split_ifs with hp
        · have hb : (b :: l).find? q = some b := by
            rw [List.find?_cons, hfrom b mem_cons_self hq]
          exact ih hup hb (hkind a b hp he)
        · exact ⟨a, by rw [List.find?_cons, hq], he⟩

end MoqGo.Lib
