import Mathlib.Data.List.Chain
import MoqGo.Lib.Codec

/-!
# Sequences of elements, each written relative to the one before

An element is written and read in the light of a **state** that the element before left, such as
the key it had when keys are sent as differences. The sequence is as long as a count says, or as
the input lasts; both loops read back what was written, and both return only sequences whose
elements fit one another.
-/

namespace MoqGo.Lib

open List

variable {ι ε α σ : Type}

/-- The elements `as` after the state `s`; `key` is the state an element leaves. -/
def writeSeq (write : σ → α → List ι) (key : α → σ) : σ → List α → List ι
  | _, [] => []
  | s, a :: as => write s a ++ writeSeq write key (key a) as

def FitsSeq (Fits : σ → α → Prop) (key : α → σ) : σ → List α → Prop
  | _, [] => True
  | s, a :: as => Fits s a ∧ FitsSeq Fits key (key a) as

/-- `n` elements. -/
def readTimes (read : σ → Parser ι ε α) (key : α → σ) : Nat → σ → Parser ι ε (List α)
  | 0, _ => pure []
  | n + 1, s => do
    let a ← read s
    let as ← readTimes read key n (key a)
    return a :: as

variable {write : σ → α → List ι} {read : σ → Parser ι ε α} {key : α → σ} {Fits : σ → α → Prop}

theorem fitsSeq_iff {R : σ → σ → Prop} [IsTrans σ R] {P : α → Prop} :
    ∀ {as : List α} {s : σ}, FitsSeq (fun s a => R s (key a) ∧ P a) key s as ↔
      (s :: as.map key).Pairwise R ∧ ∀ a ∈ as, P a := by
  intro as
  simp only [← isChain_iff_pairwise]
  induction as with
  | nil =>
    simp [FitsSeq]
  | cons a as ih =>
    intro s
    rw [FitsSeq, ih, map_cons, isChain_cons_cons, forall_mem_cons]
    constructor
    · rintro ⟨⟨hR, hP⟩, hchain, hall⟩
      exact ⟨⟨hR, hchain⟩, hP, hall⟩
    · rintro ⟨⟨hR, hchain⟩, hP, hall⟩
      exact ⟨⟨hR, hP⟩, hchain, hall⟩

theorem exists_write_le {a : α} :
    ∀ {as : List α} {s : σ}, a ∈ as →
      ∃ s', (write s' a).length ≤ (writeSeq write key s as).length := by
  intro as
  induction as with
  | nil => nofun
  | cons b as ih =>
    intro s ha
    rw [writeSeq, length_append]
    rcases mem_cons.mp ha with rfl | ha
    · exact ⟨s, by omega⟩
    · obtain ⟨s', hs'⟩ := ih (s := key b) ha
      exact ⟨s', by omega⟩

theorem length_le_writeSeq (h : ∀ s a, 0 < (write s a).length) :
    ∀ {as : List α} {s : σ}, as.length ≤ (writeSeq write key s as).length := by
  intro as
  induction as with
  | nil =>
    exact Nat.zero_le _
  | cons a as ih =>
    intro s
    have ha := h s a
    have has := ih (s := key a)
    rw [writeSeq, length_append, length_cons]
    omega

/-- Parts of an element that are not written make no difference. -/
theorem writeSeq_map {f : α → α} (hkey : ∀ a, key (f a) = key a)
    (hwrite : ∀ s a, write s (f a) = write s a) :
    ∀ {as : List α} {s : σ}, writeSeq write key s (as.map f) = writeSeq write key s as := by
  intro as
  induction as with
  | nil =>
    intro s
    rfl
  | cons a as ih =>
    intro s
    rw [map_cons, writeSeq, writeSeq, hkey, hwrite, ih]

theorem reads_readTimes (h : ∀ s a, Fits s a → Reads (read s) (write s a) a) :
    ∀ {as : List α} {s : σ}, FitsSeq Fits key s as →
      Reads (readTimes read key as.length s) (writeSeq write key s as) as := by
  intro as
  induction as with
  | nil =>
    intro s _
    exact reads_pure []
  | cons a as ih =>
    intro s hs
    exact (h s a hs.1).bind (ih hs.2).map

theorem yields_readTimes
    (h : ∀ s, Yields (read s) fun a n => Fits s a ∧ n = (write s a).length) (n : Nat) :
    ∀ s : σ, Yields (readTimes read key n s) fun as m =>
      FitsSeq Fits key s as ∧ as.length = n ∧ m = (writeSeq write key s as).length := by
  induction n with
  | zero =>
    intro s
    exact yields_pure ⟨trivial, rfl, rfl⟩
  | succ n ih =>
    intro s
    refine (h s).bind fun a k hk => (ih (key a)).bind fun as m hm => yields_pure ?_
    obtain ⟨ha, rfl⟩ := hk
    obtain ⟨has, hlen, rfl⟩ := hm
    refine ⟨⟨ha, has⟩, by simp [hlen], ?_⟩
    simp [writeSeq]

/-! ## Until the input is used up -/

/-- One element more, for a loop that keeps the state and the elements so far. -/
def readStep (read : σ → Parser ι ε α) (key : α → σ) (s : σ × List α) :
    Parser ι ε (σ × List α) := do
  let a ← read s.1
  return (key a, s.2 ++ [a])

/-- **Reading back**: every element takes something off the input, so the length of the input is
    enough. -/
theorem untilEmpty_writeSeq (hc : ∀ s, Consumes (read s))
    (h : ∀ s a, Fits s a → Reads (read s) (write s a) a) :
    ∀ {as : List α} {s : σ} (out : List α) (fuel : Nat), FitsSeq Fits key s as →
      (writeSeq write key s as).length ≤ fuel →
      ∃ s', untilEmpty (readStep read key) fuel (s, out) (writeSeq write key s as) =
        .ok (s', out ++ as) := by
  intro as
  induction as with
  | nil =>
    intro s out fuel _ _
    refine ⟨s, ?_⟩
    rw [append_nil]
    cases fuel <;> rfl
  | cons a as ih =>
    intro s out fuel hs hlen
    have hstep : readStep read key (s, out) (write s a ++ writeSeq write key (key a) as) =
        .ok ((key a, out ++ [a]), writeSeq write key (key a) as) :=
      (h s a hs.1).map _
    have hshort := hc s _ _ _ ((h s a hs.1) (writeSeq write key (key a) as))
    cases fuel with
    | zero =>
      simp only [writeSeq] at hlen
      omega
    | succ fuel =>
      obtain ⟨s', hs'⟩ := ih (out ++ [a]) fuel hs.2 (by
        simp only [writeSeq] at hlen
        omega)
      refine ⟨s', ?_⟩
      rw [append_cons, ← hs', writeSeq]
      cases hne : write s a ++ writeSeq write key (key a) as with
      | nil =>
        rw [hne] at hshort
        cases hshort
      | cons x xs =>
        rw [hne] at hstep
        rw [untilEmpty, hstep]
        intro hnil
        cases hnil

/-- **What is accepted** is a sequence whose elements fit. -/
theorem untilEmpty_yields (h : ∀ s, Yields (read s) fun a n => Fits s a ∧ n = (write s a).length) :
    ∀ {fuel : Nat} {s s' : σ} {out out' : List α} {xs : List ι},
      untilEmpty (readStep read key) fuel (s, out) xs = .ok (s', out') →
      ∃ as, out' = out ++ as ∧ FitsSeq Fits key s as ∧
        (writeSeq write key s as).length ≤ xs.length := by
  intro fuel
  induction fuel with
  | zero =>
    intro s s' out out' xs hxs
    refine ⟨[], ?_, trivial, Nat.zero_le _⟩
    cases xs <;> cases hxs <;> rw [append_nil]
  | succ fuel ih =>
    intro s s' out out' xs hxs
    cases xs with
    | nil =>
      cases hxs
      exact ⟨[], (append_nil _).symm, trivial, Nat.zero_le _⟩
    | cons x xs =>
      rw [untilEmpty] at hxs
      · cases hstep : readStep read key (s, out) (x :: xs) with
        | error e =>
          rw [hstep] at hxs
          cases hxs
        | ok r =>
          obtain ⟨r, rest⟩ := r
          rw [hstep] at hxs
          obtain ⟨a, ys, ha, hpure⟩ := Parser.bind_ok hstep
          cases hpure
          obtain ⟨n, ⟨hfit, rfl⟩, hn⟩ := h s _ _ _ ha
          obtain ⟨as, rfl, hseq, hlen⟩ := ih hxs
          refine ⟨a :: as, by simp, ⟨hfit, hseq⟩, ?_⟩
          rw [writeSeq, length_append]
          omega
      · intro hnil
        cases hnil

end MoqGo.Lib
