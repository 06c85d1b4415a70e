import MoqGo.Lib.Runs
import Mathlib.Data.Finset.Basic
import Mathlib.Data.Finset.Lattice.Lemmas

/-!
# A set kept by a log of changes

One party owns a set and logs its changes; another keeps a copy by applying the log. An edit is
`Exact` where it changes the set: it adds what is not there or removes what is. Applying a log
**strictly** fails at the first edit that is not, so a log that applies strictly never adds
twice and never removes what was not added.
-/

namespace MoqGo.Lib

/-- One change of a set. -/
inductive Edit (α : Type*)
  | add (a : α)
  | remove (a : α)
deriving DecidableEq, Repr

namespace Edit

variable {α : Type*} [DecidableEq α] {S : Finset α}

def target : Edit α → α
  | add a => a
  | remove a => a

def apply (S : Finset α) : Edit α → Finset α
  | add a => insert a S
  | remove a => S.erase a

/-- The edit changes `S`. -/
def Exact (S : Finset α) : Edit α → Prop
  | add a => a ∉ S
  | remove a => a ∈ S

instance (S : Finset α) : (e : Edit α) → Decidable (e.Exact S)
  | add a => inferInstanceAs (Decidable (a ∉ S))
  | remove a => inferInstanceAs (Decidable (a ∈ S))

def strict (S : Finset α) (e : Edit α) : Option (Finset α) :=
  if e.Exact S then some (e.apply S) else none

theorem strict_add {a : α} (h : a ∉ S) : strict S (add a) = some (insert a S) :=
  if_pos h

theorem strict_remove {a : α} (h : a ∈ S) : strict S (remove a) = some (S.erase a) :=
  if_pos h

theorem run_strict_adds {as : List α} (hn : as.Nodup) (h : ∀ a ∈ as, a ∉ S) :
    run strict S (as.map add) = some (S ∪ as.toFinset) := by
  induction as generalizing S with
  | nil => simp
  | cons a as ih =>
    obtain ⟨ha, hn⟩ := List.nodup_cons.mp hn
    have hrest : ∀ b ∈ as, b ∉ insert a S := by
      intro b hb hin
      rcases Finset.mem_insert.mp hin with rfl | hin
      · exact ha hb
      · exact h b (List.mem_cons_of_mem a hb) hin
    refine run_cons.mpr ⟨insert a S, strict_add (h a List.mem_cons_self), ?_⟩
    rw [ih hn hrest, List.toFinset_cons, Finset.union_insert, Finset.insert_union]

theorem run_strict_removes {as : List α} (hn : as.Nodup) (h : ∀ a ∈ as, a ∈ S) :
    run strict S (as.map remove) = some (S \ as.toFinset) := by
  induction as generalizing S with
  | nil => simp
  | cons a as ih =>
    obtain ⟨ha, hn⟩ := List.nodup_cons.mp hn
    have hrest : ∀ b ∈ as, b ∈ S.erase a := by
      intro b hb
      refine Finset.mem_erase.mpr ⟨?_, h b (List.mem_cons_of_mem a hb)⟩
      rintro rfl
      exact ha hb
    refine run_cons.mpr ⟨S.erase a, strict_remove (h a List.mem_cons_self), ?_⟩
    rw [ih hn hrest, List.toFinset_cons, Finset.sdiff_insert, Finset.erase_sdiff_comm]

end Edit
end MoqGo.Lib
