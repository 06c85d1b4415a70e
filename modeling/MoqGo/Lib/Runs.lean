import Mathlib.Logic.Function.Basic
import Mathlib.Logic.Relation

/-!
# Runs of a partial step function, and invariants over them

Everything stateful in this development is a function `step : σ → α → Option σ`: one
lock-atomic operation `a` of some party, taken in state `s`, or `none` where that party is
not at a point where it can take it. A *run* is a list of operations, in the order their
locks were acquired. Three rules are all the safety proofs use:

* `run_inv`: what holds initially and is kept by every step holds at the end of every run;
* `run_inv_along`: the same, for the runs whose steps all meet a side condition `Ok`. That
  is the shape of a result about code that is right *except* where a named branch is taken,
  and `run_iff_along` says when the exception is exact.

Nothing here mentions what is being run.
-/

namespace MoqGo.Lib

variable {σ α : Type*} {step : σ → α → Option σ}

/-- The state after `as`, if every one of them could be taken. -/
def run (step : σ → α → Option σ) : σ → List α → Option σ
  | s, [] => some s
  | s, a :: as => (step s a).bind fun s' => run step s' as

theorem guard_iff {p : Prop} [Decidable p] {a b : σ} :
    (if p then some a else none) = some b ↔ p ∧ a = b := by
  simp

theorem unless_iff {p : Prop} [Decidable p] {a b : σ} :
    (if p then none else some a) = some b ↔ ¬ p ∧ a = b := by
  simp

theorem update_eq_some {ι β : Type*} [DecidableEq ι] {f : ι → Option β} {i j : ι} {b c : β}
    (h : Function.update f i (some b) j = some c) : j = i ∧ b = c ∨ j ≠ i ∧ f j = some c := by
  by_cases hne : j = i
  · subst hne
    rw [Function.update_self] at h
    exact .inl ⟨rfl, Option.some.inj h⟩
  · rw [Function.update_of_ne hne] at h
    exact .inr ⟨hne, h⟩

section

variable {o : Option σ} {P Q R : σ → Prop} [DecidablePred P]

/-- What a computation shows of its result. -/
theorem computes (h : (o.any fun s => decide (P s)) = true) : ∃ s, o = some s ∧ P s := by
  obtain ⟨s, hs, hP⟩ := (Option.any_eq_true _ _).mp h
  exact ⟨s, hs, of_decide_eq_true hP⟩

/-- What it shows, and what follows from that. -/
theorem computes_and (h : (o.any fun s => decide (P s)) = true)
    (hQ : ∀ s, o = some s → P s → Q s) : ∃ s, o = some s ∧ P s ∧ Q s :=
  (computes h).imp fun s hs => ⟨hs.1, hs.2, hQ s hs.1 hs.2⟩

theorem computes_two [DecidablePred Q] (h : (o.any fun s => decide (P s ∧ Q s)) = true)
    (hR : ∀ s, o = some s → P s → Q s → R s) : ∃ s, o = some s ∧ P s ∧ Q s ∧ R s :=
  (computes h).imp fun s hs => ⟨hs.1, hs.2.1, hs.2.2, hR s hs.1 hs.2.1 hs.2.2⟩

end

/-- Every step the run takes meets `Ok`, at the state it is taken in. -/
def Along (step : σ → α → Option σ) (Ok : σ → α → Prop) : σ → List α → Prop
  | _, [] => True
  | s, a :: as => Ok s a ∧ ∀ s', step s a = some s' → Along step Ok s' as

instance Along.decidable {Ok : σ → α → Prop} [∀ s a, Decidable (Ok s a)] :
    (s : σ) → (as : List α) → Decidable (Along step Ok s as)
  | _, [] => isTrue trivial
  | s, a :: as =>
    match h : step s a with
    | none => decidable_of_iff (Ok s a) ⟨fun ok => ⟨ok, by simp [h]⟩, And.left⟩
    | some t =>
      have : Decidable (Along step Ok t as) := Along.decidable t as
      decidable_of_iff (Ok s a ∧ Along step Ok t as) (by simp [Along, h])

@[simp] theorem run_nil (s : σ) : run step s [] = some s := rfl

theorem run_cons {s s' : σ} {a : α} {as : List α} :
    run step s (a :: as) = some s' ↔ ∃ t, step s a = some t ∧ run step t as = some s' := by
  simp [run, Option.bind_eq_some_iff]

theorem run_singleton (s : σ) (a : α) : run step s [a] = step s a := by
  cases h : step s a <;> simp [run, h]

theorem run_append {as bs : List α} {s s' : σ} :
    run step s (as ++ bs) = some s' ↔
      ∃ t, run step s as = some t ∧ run step t bs = some s' := by
  induction as generalizing s with
  | nil => simp
  | cons a as ih =>
    simp only [List.cons_append, run_cons, ih]
    constructor
    · rintro ⟨u, hu, t, ht, hb⟩
      exact ⟨t, ⟨u, hu, ht⟩, hb⟩
    · rintro ⟨t, ⟨u, hu, ht⟩, hb⟩
      exact ⟨u, hu, t, ht, hb⟩

/-- A run is simulated by the run of the images, where each of its steps is. -/
theorem run_map {τ β : Type*} {step' : τ → β → Option τ} {f : σ → τ} {g : α → β} {as : List α}
    (h : ∀ a ∈ as, ∀ s, step' (f s) (g a) = (step s a).map f) (s : σ) :
    run step' (f s) (as.map g) = (run step s as).map f := by
  induction as generalizing s with
  | nil => rfl
  | cons a as ih =>
    have hrest : ∀ t, run step' (f t) (as.map g) = (run step t as).map f :=
      ih fun b hb => h b (List.mem_cons_of_mem a hb)
    simp only [List.map_cons, run, h a List.mem_cons_self s]
    cases step s a with
    | none => rfl
    | some t => exact hrest t

theorem along_append {Ok : σ → α → Prop} {as bs : List α} {s t : σ}
    (hr : run step s as = some t) (h : Along step Ok s (as ++ bs)) :
    Along step Ok s as ∧ Along step Ok t bs := by
  induction as generalizing s with
  | nil =>
    simp only [run_nil, Option.some.injEq] at hr
    exact ⟨trivial, hr ▸ h⟩
  | cons a as ih =>
    obtain ⟨u, hu, hrest⟩ := run_cons.mp hr
    refine ⟨⟨h.1, fun s' hs' => ?_⟩, (ih hrest (h.2 u hu)).2⟩
    rw [hu, Option.some.injEq] at hs'
    exact hs' ▸ (ih hrest (h.2 u hu)).1

theorem along_of_mem {Ok : α → Prop} {as : List α} (h : ∀ a ∈ as, Ok a) (s : σ) :
    Along step (fun _ a => Ok a) s as := by
  induction as generalizing s with
  | nil => trivial
  | cons a as ih =>
    exact ⟨h a List.mem_cons_self, fun s' _ => ih (fun b hb => h b (List.mem_cons_of_mem a hb)) s'⟩

/-- **The conditional invariant rule.** -/
theorem run_inv_along {P : σ → Prop} {Ok : σ → α → Prop}
    (hstep : ∀ s a s', P s → Ok s a → step s a = some s' → P s') :
    ∀ {as : List α} {s s' : σ}, P s → Along step Ok s as →
      run step s as = some s' → P s' := by
  intro as
  induction as with
  | nil =>
    intro s s' hs _ hr
    simp only [run_nil, Option.some.injEq] at hr
    exact hr ▸ hs
  | cons a as ih =>
    intro s s' hs hok hr
    obtain ⟨t, ht, hrest⟩ := run_cons.mp hr
    exact ih (hstep s a t hs hok.1 ht) (hok.2 t ht) hrest

/-- A side condition that follows from another at the states the other one leads to. -/
theorem Along.of_inv {P : σ → Prop} {Ok Ok' : σ → α → Prop} {as : List α} {s : σ}
    (h : Along step Ok s as) (hstep : ∀ s a s', P s → Ok s a → step s a = some s' → P s')
    (hok : ∀ s a, P s → Ok s a → Ok' s a) (hs : P s) : Along step Ok' s as := by
  induction as generalizing s with
  | nil => trivial
  | cons a as ih => exact ⟨hok s a hs h.1, fun s' hs' => ih (h.2 s' hs') (hstep s a s' hs h.1 hs')⟩

/-- **The invariant rule**: the condition-free case. -/
theorem run_inv {P : σ → Prop} (hstep : ∀ s a s', P s → step s a = some s' → P s')
    {as : List α} {s s' : σ} (hs : P s) (hr : run step s as = some s') : P s' := by
  have hall : Along step (fun _ _ => True) s as := by
    clear hr hs
    induction as generalizing s with
    | nil => trivial
    | cons a as ih => exact ⟨trivial, fun _ _ => ih⟩
  exact run_inv_along (fun s a s' h _ => hstep s a s' h) hs hall hr

/-- What one step of a run establishes and the steps after it keep, beside an invariant of the
    run, holds at its end. -/
theorem run_after {Inv P : σ → Prop} {a : α} {before after : List α} {s₀ s : σ}
    (hrun : run step s₀ (before ++ a :: after) = some s) (hinit : Inv s₀)
    (hinv : ∀ s a s', Inv s → step s a = some s' → Inv s')
    (hset : ∀ s s', Inv s → step s a = some s' → P s')
    (hkeep : ∀ s a s', Inv s → P s → step s a = some s' → P s') : P s := by
  obtain ⟨t, hbefore, hrest⟩ := run_append.mp hrun
  obtain ⟨u, hu, hafter⟩ := run_cons.mp hrest
  have ht : Inv t := run_inv hinv hinit hbefore
  have hboth : Inv u ∧ P u := ⟨hinv t a u ht hu, hset t u ht hu⟩
  have hkept : ∀ s a s', Inv s ∧ P s → step s a = some s' → Inv s' ∧ P s' :=
    fun s a s' h hs => ⟨hinv s a s' h.1 hs, hkeep s a s' h.1 h.2 hs⟩
  exact (run_inv hkept hboth hafter).2

/-- **The exact side condition**: where a step keeps `P` exactly if it meets `Ok`, so does a
    run. `Inv` is what the steps may rely on. -/
theorem run_iff_along {Inv P : σ → Prop} {Ok : σ → α → Prop}
    (hinv : ∀ s a s', Inv s → step s a = some s' → Inv s')
    (hstep : ∀ s a s', Inv s → step s a = some s' → (P s' ↔ P s ∧ Ok s a)) :
    ∀ {as : List α} {s s' : σ}, Inv s → run step s as = some s' →
      (P s' ↔ P s ∧ Along step Ok s as) := by
  intro as
  induction as with
  | nil =>
    intro s s' _ hr
    cases hr
    exact ⟨fun h => ⟨h, trivial⟩, And.left⟩
  | cons a as ih =>
    intro s s' hs hr
    obtain ⟨t, ht, hrest⟩ := run_cons.mp hr
    rw [ih (hinv s a t hs ht) hrest, hstep s a t hs ht, and_assoc]
    refine and_congr_right fun _ => and_congr_right fun _ => ⟨?_, fun h => h t ht⟩
    intro h u hu
    rw [ht, Option.some.injEq] at hu
    exact hu ▸ h

end MoqGo.Lib
