import Mathlib.Data.List.Perm.Basic
import MoqGo.Lib.Runs

/-!
# Machines that refuse what contradicts the past

A consistency checker takes statements one by one, keeps a summary of them, and refuses the
first that contradicts an earlier one. If the summary loses nothing that matters, that is, if a
statement is refused **exactly** when it is incompatible with some statement taken before, then
a whole sequence is taken exactly when its statements are pairwise compatible, and the order
they came in does not matter.

`Checks` states that for one step: `Rep s past` says the state `s` summarises `past`, and
`Adm past a` is what the environment guarantees about the next statement, which may depend on
the past (a reply after its request). `run_isSome_iff_pairwise` lifts it to runs and
`run_isSome_perm` draws the conclusion.
-/

namespace MoqGo.Lib

variable {σ α : Type*}

/-- `step` refuses `a` exactly when it contradicts the past. The past is kept latest first. -/
structure Checks (step : σ → α → Option σ) (Rep : σ → List α → Prop)
    (Adm : List α → α → Prop) (Compat : α → α → Prop) : Prop where
  /-- A step is taken exactly when its statement is compatible with the past. -/
  accepts : ∀ {s past a}, Rep s past → Adm past a →
    ((step s a).isSome = true ↔ ∀ b ∈ past, Compat b a)
  /-- The new state summarises one statement more. -/
  rep : ∀ {s past a s'}, Rep s past → Adm past a → step s a = some s' → Rep s' (a :: past)

def Admissible (Adm : List α → α → Prop) : List α → List α → Prop
  | _, [] => True
  | past, a :: as => Adm past a ∧ Admissible Adm (a :: past) as

namespace Checks

variable {step : σ → α → Option σ} {Rep : σ → List α → Prop} {Adm : List α → α → Prop}
  {Compat : α → α → Prop} {as : List α} {s : σ}

theorem run_isSome_iff (h : Checks step Rep Adm Compat) {past : List α} (hrep : Rep s past)
    (hadm : Admissible Adm past as) :
    (run step s as).isSome = true ↔ (∀ b ∈ past, ∀ a ∈ as, Compat b a) ∧ as.Pairwise Compat := by
  induction as generalizing s past with
  | nil => simp
  | cons a as ih =>
    obtain ⟨ha, hadm⟩ := hadm
    have hacc := h.accepts hrep ha
    rw [List.pairwise_cons]
    cases hs : step s a with
    | none =>
      simp only [run, hs, Option.bind_none, Option.isSome_none, Bool.false_eq_true, false_iff]
      rw [hs] at hacc
      simp only [Option.isSome_none, Bool.false_eq_true, false_iff] at hacc
      exact fun hall => hacc fun b hb => hall.1 b hb a List.mem_cons_self
    | some s' =>
      rw [hs] at hacc
      simp only [Option.isSome_some, true_iff] at hacc
      simp only [run, hs, Option.bind_some, ih (h.rep hrep ha hs) hadm]
      constructor
      · rintro ⟨hpast, hpair⟩
        refine ⟨fun b hb x hx => ?_, fun x hx => hpast a List.mem_cons_self x hx, hpair⟩
        rcases List.mem_cons.mp hx with rfl | hx
        · exact hacc b hb
        · exact hpast b (List.mem_cons_of_mem _ hb) x hx
      · rintro ⟨hpast, hhead, hpair⟩
        refine ⟨fun b hb x hx => ?_, hpair⟩
        rcases List.mem_cons.mp hb with rfl | hb
        · exact hhead x hx
        · exact hpast b hb x (List.mem_cons_of_mem _ hx)

/-- **A sequence is taken exactly when it is pairwise compatible.** -/
theorem run_isSome_iff_pairwise (h : Checks step Rep Adm Compat) (hrep : Rep s [])
    (hadm : Admissible Adm [] as) : (run step s as).isSome = true ↔ as.Pairwise Compat := by
  simp [h.run_isSome_iff hrep hadm]

/-- **The order does not matter**, among the orders the environment may produce. -/
theorem run_isSome_perm (h : Checks step Rep Adm Compat) (hsymm : ∀ a b, Compat a b → Compat b a)
    {bs : List α} (hrep : Rep s []) (hperm : as.Perm bs) (ha : Admissible Adm [] as)
    (hb : Admissible Adm [] bs) :
    (run step s as).isSome = true ↔ (run step s bs).isSome = true := by
  rw [h.run_isSome_iff_pairwise hrep ha, h.run_isSome_iff_pairwise hrep hb]
  exact hperm.pairwise_iff (fun {a b} => hsymm a b)

end Checks
end MoqGo.Lib
