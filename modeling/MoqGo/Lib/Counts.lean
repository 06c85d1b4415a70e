import Mathlib.Data.List.AList

/-!
# Reference counts in a finite map

A map that holds a number for each key with references, and nothing for the others. `Counts m n`
says that `m` is that map for the numbers `n`; a reference more (`more`) and a reference less
(`less`) keep it, so that a key comes in with its first reference and goes with its last.
-/

namespace MoqGo.Lib

open AList Function

variable {α : Type*} [DecidableEq α]

/-- `m` holds exactly the positive values of `n`. -/
def Counts (m : AList fun _ : α => Nat) (n : α → Nat) : Prop :=
  ∀ a, m.lookup a = if 0 < n a then some (n a) else none

/-- `k` references more. -/
def more (m : AList fun _ : α => Nat) (a : α) (k : Nat) : AList fun _ : α => Nat :=
  m.insert a ((m.lookup a).getD 0 + k)

/-- A reference less: the last one takes the key out. -/
def less (m : AList fun _ : α => Nat) (a : α) : AList fun _ : α => Nat :=
  if (m.lookup a).getD 0 - 1 = 0 then m.erase a else m.insert a ((m.lookup a).getD 0 - 1)

namespace Counts

variable {m : AList fun _ : α => Nat} {n n' : α → Nat} {a : α}

theorem empty : Counts (∅ : AList fun _ : α => Nat) fun _ => 0 := by
  intro a
  simp [lookup_empty]

section

variable (h : Counts m n)
include h

theorem getD (a : α) : (m.lookup a).getD 0 = n a := by
  rw [h a]
  split
  · rfl
  · simp only [Option.getD_none]
    omega

theorem mem_iff : a ∈ m ↔ 0 < n a := by
  rw [← lookup_isSome, h a]
  split <;> simp [*]

theorem mem_keys_iff : a ∈ m.keys ↔ 0 < n a := by
  rw [← mem_keys, h.mem_iff]

theorem congr (he : ∀ a, n a = n' a) : Counts m n' := by
  rwa [← funext he]

theorem more (a : α) {k : Nat} (hk : 0 < k) :
    Counts (more m a k) (update n a (n a + k)) := by
  intro b
  rw [Lib.more, h.getD]
  rcases eq_or_ne b a with rfl | hb
  · rw [lookup_insert, update_self, if_pos (by omega)]
  · rw [lookup_insert_ne hb, update_of_ne hb, h b]

theorem less (a : α) : Counts (less m a) (update n a (n a - 1)) := by
  intro b
  rw [Lib.less, h.getD]
  rcases eq_or_ne b a with rfl | hb
  · rw [update_self]
    split
    · rw [lookup_erase, if_neg (by omega)]
    · rw [lookup_insert, if_pos (by omega)]
  · rw [update_of_ne hb, ← h b]
    split
    · exact lookup_erase_ne hb
    · exact lookup_insert_ne hb

theorem erase (a : α) : Counts (m.erase a) (update n a 0) := by
  intro b
  rcases eq_or_ne b a with rfl | hb
  · rw [lookup_erase, update_self, if_neg (Nat.lt_irrefl 0)]
  · rw [lookup_erase_ne hb, update_of_ne hb, h b]

theorem more_eq_one : (Lib.more m a 1).lookup a = some 1 ↔ n a = 0 := by
  rw [Lib.more, lookup_insert, h.getD]
  simp

theorem less_eq_none (ha : 0 < n a) : (Lib.less m a).lookup a = none ↔ n a = 1 := by
  rw [h.less a a, update_self]
  split <;> simp <;> omega

end

end Counts

variable {l : List α} {a : α}

/-- How many of a list satisfy a test, after the test changed at one element. -/
theorem countP_update {p q : α → Bool} (hl : l.Nodup) (ha : a ∈ l)
    (hsame : ∀ b, b ≠ a → p b = q b) :
    l.countP p + (q a).toNat = l.countP q + (p a).toNat := by
  have hperm := List.perm_cons_erase ha
  have hrest : (l.erase a).countP p = (l.erase a).countP q := by
    apply List.countP_congr
    intro b hb
    rw [hsame b (hl.mem_erase_iff.mp hb).1]
  rw [hperm.countP_eq p, hperm.countP_eq q, List.countP_cons, List.countP_cons, hrest]
  cases p a <;> cases q a <;> simp

theorem countP_erase_add (ha : a ∈ l) (p : α → Bool) :
    (l.erase a).countP p + (p a).toNat = l.countP p := by
  rw [(List.perm_cons_erase ha).countP_eq p, List.countP_cons]
  cases p a <;> rfl

omit [DecidableEq α] in
theorem countP_cons_toNat (l : List α) (a : α) (p : α → Bool) :
    (a :: l).countP p = l.countP p + (p a).toNat := by
  rw [List.countP_cons]
  cases p a <;> rfl

/-- How many of a list satisfy a test, with one element put in another's place. -/
theorem countP_cons_erase (ha : a ∈ l) (b : α) (p : α → Bool) :
    (b :: l.erase a).countP p + (p a).toNat = l.countP p + (p b).toNat := by
  rw [countP_cons_toNat, ← countP_erase_add ha p]
  omega

end MoqGo.Lib
