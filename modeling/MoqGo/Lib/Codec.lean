import Mathlib.Control.Monad.Basic

/-!
# Parsers, and what they read back

A parser takes symbols from the front of a list and leaves the rest, or fails. `Reads p xs a`
says that `p` consumes exactly `xs` and returns `a`, **whatever follows**: that is the form of a
round trip that composes, since the rest of a message is what follows each of its fields. A
writer whose output is read back field by field is then read back whole (`Reads.bind`).

The converse direction is about what a parser accepts: `Yields p P` says that every value `p`
returns meets `P`, which may speak of a number of symbols that `p` has used up **at least**. A
decoder that accepts more than its encoder writes is bounded by it that way.
-/

namespace MoqGo.Lib

open List

/-- A parser over symbols `ι`, failing with `ε`. -/
abbrev Parser (ι ε α : Type) := StateT (List ι) (Except ε) α

variable {ι ε α β : Type} {p : Parser ι ε α} {f : α → Parser ι ε β} {xs ys : List ι} {a : α} {b : β}
  {e : ε} {P : α → Nat → Prop} {Q : β → Nat → Prop}

/-- `p` reads `xs` as `a`, whatever follows. -/
def Reads (p : Parser ι ε α) (xs : List ι) (a : α) : Prop :=
  ∀ rest, p (xs ++ rest) = .ok (a, rest)

theorem reads_pure (a : α) : Reads (pure a : Parser ι ε α) [] a := fun _ => rfl

theorem Reads.bind (hp : Reads p xs a) (hf : Reads (f a) ys b) : Reads (p >>= f) (xs ++ ys) b := by
  intro rest
  change (p (xs ++ ys ++ rest)).bind (fun r => f r.1 r.2) = _
  rw [append_assoc, hp (ys ++ rest)]
  exact hf rest

/-- The last field of a message, and how the result is put together. -/
theorem Reads.map {f : α → β} (hp : Reads p xs a) : Reads (p >>= fun a => pure (f a)) xs (f a) := by
  have := hp.bind (f := fun a => pure (f a)) (reads_pure (f a))
  rwa [append_nil] at this

theorem Reads.bind_error (hp : Reads p xs a) (hf : f a ys = .error e) :
    (p >>= f) (xs ++ ys) = .error e := by
  change (p (xs ++ ys)).bind (fun r => f r.1 r.2) = _
  rw [hp ys]
  exact hf

theorem Parser.bind_fails (hp : p xs = .error e) : (p >>= f) xs = .error e := by
  change (p xs).bind (fun r => f r.1 r.2) = _
  rw [hp]
  rfl

theorem Parser.bind_ok {zs : List ι} (h : (p >>= f) xs = .ok (b, zs)) :
    ∃ a ys, p xs = .ok (a, ys) ∧ f a ys = .ok (b, zs) := by
  change (p xs).bind (fun r => f r.1 r.2) = _ at h
  cases hp : p xs with
  | error e =>
    rw [hp] at h
    cases h
  | ok r =>
    rw [hp] at h
    exact ⟨r.1, r.2, rfl, h⟩

def Parser.mapError {ε' : Type} (f : ε → ε') (p : Parser ι ε α) : Parser ι ε' α :=
  fun xs => (p xs).mapError f

theorem Reads.mapError {ε' : Type} (hp : Reads p xs a) (f : ε → ε') :
    Reads (Parser.mapError f p) xs a := by
  intro rest
  rw [Parser.mapError, hp rest]
  rfl

theorem Parser.mapError_fails {ε' : Type} (hp : p xs = .error e) (f : ε → ε') :
    Parser.mapError f p xs = .error (f e) := by
  rw [Parser.mapError, hp]
  rfl

/-- A field that is there only if `present` says so, and is `default` if not. -/
def Parser.field [Inhabited α] (present : Bool) (p : Parser ι ε α) : Parser ι ε α :=
  if present then p else pure default

theorem Reads.field [Inhabited α] {present : Bool} (hp : Reads p xs a)
    (habsent : present = false → a = default) :
    Reads (Parser.field present p) (if present then xs else []) a := by
  cases present with
  | true => exact hp
  | false =>
    rw [habsent rfl]
    exact reads_pure default

theorem Reads.run_nil (hp : Reads p xs a) : p xs = .ok (a, []) := by
  have := hp []
  rwa [append_nil] at this

/-- Reading `xs` up to the end of the input. -/
def Ends (p : Parser ι ε α) (xs : List ι) (a : α) : Prop := p xs = .ok (a, [])

theorem Reads.ends (hp : Reads p xs a) : Ends p xs a :=
  hp.run_nil

theorem Reads.bind_ends (hp : Reads p xs a) (hf : Ends (f a) ys b) :
    Ends (p >>= f) (xs ++ ys) b := by
  change (p (xs ++ ys)).bind (fun r => f r.1 r.2) = _
  rw [hp ys]
  exact hf

theorem Ends.bind (hp : Ends p xs a) (hf : Ends (f a) [] b) : Ends (p >>= f) xs b := by
  change (p xs).bind (fun r => f r.1 r.2) = _
  rw [show p xs = .ok (a, []) from hp]
  exact hf

theorem Ends.map {f : α → β} (hp : Ends p xs a) : Ends (p >>= fun a => pure (f a)) xs (f a) :=
  hp.bind rfl

theorem Ends.mapError {ε' : Type} (hp : Ends p xs a) (f : ε → ε') :
    Ends (Parser.mapError f p) xs a := by
  show Parser.mapError f p xs = _
  rw [Parser.mapError, show p xs = .ok (a, []) from hp]
  rfl

/-- A last part that is there if anything is left of the input. -/
def Parser.rest (p : Parser ι ε α) : Parser ι ε (Option α)
  | [] => .ok (none, [])
  | xs => (p >>= fun a => pure (some a)) xs

theorem ends_rest_nil : Ends (Parser.rest p) [] none := rfl

theorem Ends.rest (hp : Ends p xs a) (hne : xs ≠ []) : Ends (Parser.rest p) xs (some a) := by
  cases xs with
  | nil => exact absurd rfl hne
  | cons x xs => exact hp.map

/-! ## What is accepted -/

/-- Whatever `p` returns meets `P`, for a number of symbols that `p` has used up at least. -/
def Yields (p : Parser ι ε α) (P : α → Nat → Prop) : Prop :=
  ∀ xs a ys, p xs = .ok (a, ys) → ∃ n, P a n ∧ n + ys.length ≤ xs.length

theorem yields_pure (h : P a 0) : Yields (pure a : Parser ι ε α) P := by
  intro xs b ys hp
  cases hp
  exact ⟨0, h, by omega⟩

theorem Yields.bind (hp : Yields p P) (hf : ∀ a n, P a n → Yields (f a) fun b m => Q b (n + m)) :
    Yields (p >>= f) Q := by
  intro xs b zs h
  obtain ⟨a, ys, ha, hb⟩ := Parser.bind_ok h
  obtain ⟨n, hPa, hn⟩ := hp xs a ys ha
  obtain ⟨m, hQ, hm⟩ := hf a n hPa ys b zs hb
  exact ⟨n + m, hQ, by omega⟩

theorem Yields.mono {Q : α → Nat → Prop} (hp : Yields p P) (h : ∀ a n, P a n → Q a n) :
    Yields p Q := by
  intro xs a ys hxs
  obtain ⟨n, hP, hn⟩ := hp xs a ys hxs
  exact ⟨n, h a n hP, hn⟩

theorem yields_throw : Yields (throw e : Parser ι ε α) P := by
  intro xs a ys h
  cases h

theorem yields_throw_bind {P : β → Nat → Prop} : Yields ((throw e : Parser ι ε α) >>= f) P := by
  intro xs a ys h
  cases h

theorem Yields.mapError {ε' : Type} (hp : Yields p P) (f : ε → ε') :
    Yields (Parser.mapError f p) P := by
  intro xs a ys h
  rw [Parser.mapError] at h
  cases hxs : p xs with
  | error e =>
    rw [hxs] at h
    cases h
  | ok r =>
    rw [hxs] at h
    cases h
    exact hp xs a ys hxs

theorem Yields.field [Inhabited α] (hp : Yields p P) (present : Bool) :
    Yields (Parser.field present p) fun a n =>
      if present = true then P a n else a = default ∧ n = 0 := by
  cases present with
  | true => exact hp
  | false => exact yields_pure ⟨rfl, rfl⟩

theorem field_absent {present : Bool} {P Q R : Prop} (h : if present = true then P else Q ∧ R)
    (habsent : present = false) : Q := by
  rw [habsent, if_neg Bool.false_ne_true] at h
  exact h.1

theorem Yields.rest {Q : Option α → Nat → Prop} (hp : Yields p P) (hnone : Q none 0)
    (hsome : ∀ a n, P a n → Q (some a) n) : Yields (Parser.rest p) Q := by
  intro xs a ys h
  cases xs with
  | nil =>
    cases h
    exact ⟨0, hnone, Nat.le_refl _⟩
  | cons x xs => exact (hp.bind fun a n ha => yields_pure (hsome a n ha)) (x :: xs) a ys h

/-! ## Prefix codes -/

/-- Encodings of which **none continues another**: what follows one of them is told apart. -/
def PrefixCode (Ok : α → Prop) (write : α → List ι) : Prop :=
  ∀ ⦃a b : α⦄ ⦃xs ys : List ι⦄, Ok a → Ok b → write a ++ xs = write b ++ ys → a = b ∧ xs = ys

section PrefixCode

variable {Ok : α → Prop} {write : α → List ι}

theorem prefixCode_of_reads (h : ∀ a, Ok a → Reads p (write a) a) : PrefixCode Ok write := by
  intro a b xs ys ha hb heq
  have hread := h a ha xs
  rw [heq, h b hb ys] at hread
  cases hread
  exact ⟨rfl, rfl⟩

/-- Lists of one length, written one element after another. -/
theorem PrefixCode.flatMap (h : PrefixCode Ok write) {as bs : List α} {xs ys : List ι}
    (hlen : as.length = bs.length) (has : ∀ a ∈ as, Ok a) (hbs : ∀ b ∈ bs, Ok b)
    (heq : as.flatMap write ++ xs = bs.flatMap write ++ ys) : as = bs ∧ xs = ys := by
  induction as generalizing bs with
  | nil =>
    cases length_eq_zero_iff.mp hlen.symm
    exact ⟨rfl, heq⟩
  | cons a as ih =>
    cases bs with
    | nil => cases hlen
    | cons b bs =>
      rw [forall_mem_cons] at has hbs
      simp only [flatMap_cons, append_assoc] at heq
      obtain ⟨rfl, hrest⟩ := h has.1 hbs.1 heq
      obtain ⟨rfl, rfl⟩ := ih (Nat.succ.inj hlen) has.2 hbs.2 hrest
      exact ⟨rfl, rfl⟩

end PrefixCode

/-- A coding **up to a normal form**: what is written is read back in normal form, if it is `Ok`
    and no longer than can be counted; what is read is `Ok` and in normal form, and written it is
    no longer than what was read. -/
structure Coded (bound : Nat) (write : α → List ι) (read : Parser ι ε α) (Ok : α → Prop)
    (norm : α → α) : Prop where
  ends : ∀ a, Ok a → (write a).length < bound → Ends read (write a) (norm a)
  yields : Yields read fun a n => (Ok a ∧ norm a = a) ∧ n = (write a).length

/-- What is read becomes part of something larger. -/
theorem Coded.yields_map {bound : Nat} {write : α → List ι} {read : Parser ι ε α} {Ok : α → Prop}
    {norm : α → α} (h : Coded bound write read Ok norm) {f : α → β}
    (hf : ∀ a, Ok a → norm a = a → Q (f a) (write a).length) :
    Yields (read >>= fun a => pure (f a)) Q := by
  refine h.yields.bind fun a n ha => yields_pure ?_
  obtain ⟨⟨hok, hnorm⟩, rfl⟩ := ha
  exact hf a hok hnorm

/-- A field that **delimits itself**: it is coded, and read back whatever follows. -/
structure Delimited (bound : Nat) (write : α → List ι) (read : Parser ι ε α) (Ok : α → Prop)
    (norm : α → α) : Prop where
  reads : ∀ a, Ok a → (write a).length < bound → Reads read (write a) (norm a)
  yields : Yields read fun a n => (Ok a ∧ norm a = a) ∧ n = (write a).length

section Layout

variable {bound : Nat} {write : α → List ι} {read : Parser ι ε α} {Ok : α → Prop} {norm : α → α}
  {write' : β → List ι} {read' : Parser ι ε β} {Ok' : β → Prop} {norm' : β → β}

theorem Delimited.coded (h : Delimited bound write read Ok norm) :
    Coded bound write read Ok norm where
  ends a ha hlen := (h.reads a ha hlen).ends
  yields := h.yields

/-- A field, and then the rest of the layout. -/
theorem Delimited.before (h : Delimited bound write read Ok norm)
    (h' : Coded bound write' read' Ok' norm') :
    Coded bound (fun p : α × β => write p.1 ++ write' p.2)
      (do let a ← read; let b ← read'; return (a, b)) (fun p => Ok p.1 ∧ Ok' p.2)
      fun p => (norm p.1, norm' p.2) where
  ends p hp hlen := by
    rw [length_append] at hlen
    exact (h.reads p.1 hp.1 (by omega)).bind_ends (h'.ends p.2 hp.2 (by omega)).map
  yields := by
    refine h.yields.bind fun a n ha => h'.yields.bind fun b m hb => yields_pure ?_
    obtain ⟨⟨hok, hnorm⟩, rfl⟩ := ha
    obtain ⟨⟨hok', hnorm'⟩, rfl⟩ := hb
    exact ⟨⟨⟨hok, hok'⟩, Prod.ext hnorm hnorm'⟩, by simp⟩

/-- The same layout, of the fields of a record. -/
theorem Coded.record (h : Coded bound write read Ok norm) (f : β → α) (g : α → β)
    (hread : read' = do return g (← read)) (hok : ∀ b, Ok' b ↔ Ok (f b))
    (hwrite : ∀ b, write' b = write (f b) := by exact fun _ => rfl)
    (hnorm : ∀ b, norm' b = g (norm (f b)) := by exact fun _ => rfl)
    (hfg : ∀ a, f (g a) = a := by exact fun _ => rfl) : Coded bound write' read' Ok' norm' where
  ends b hb hlen := by
    rw [hwrite] at hlen ⊢
    rw [hread, hnorm]
    exact (h.ends (f b) ((hok b).mp hb) hlen).map
  yields := by
    rw [hread]
    refine h.yields_map fun a ha hna => ?_
    rw [hok, hnorm, hwrite, hfg]
    exact ⟨⟨ha, congrArg g hna⟩, rfl⟩

/-- A last part that may be missing. -/
theorem Coded.rest (h : Coded bound write read Ok norm) (hne : ∀ a, write a ≠ []) :
    Coded bound (fun o : Option α => match o with | none => [] | some a => write a)
      (Parser.rest read) (fun o => ∀ a, o = some a → Ok a) (Option.map norm) where
  ends o ho hlen := by
    cases o with
    | none => exact ends_rest_nil
    | some a => exact (h.ends a (ho a rfl) hlen).rest (hne a)
  yields := by
    refine h.yields.rest ⟨⟨nofun, rfl⟩, rfl⟩ fun a n ha => ?_
    refine ⟨⟨fun b hb => Option.some.inj hb ▸ ha.1.1, congrArg some ha.1.2⟩, ha.2⟩

end Layout

/-! ## Repetition -/

variable {σ : Type}

/-- `p` takes something off every input it accepts. -/
def Consumes (p : Parser ι ε α) : Prop :=
  ∀ xs a ys, p xs = .ok (a, ys) → ys.length < xs.length

theorem Yields.consumes (hp : Yields p P) (h : ∀ a n, P a n → 0 < n) : Consumes p := by
  intro xs a ys hxs
  obtain ⟨n, hP, hn⟩ := hp xs a ys hxs
  have hpos := h a n hP
  omega

/-- `f` is run until the input is used up, at most `fuel` times. -/
def untilEmpty (f : σ → Parser ι ε σ) : Nat → σ → List ι → Except ε σ
  | _, s, [] => .ok s
  | 0, s, _ => .ok s
  | fuel + 1, s, xs =>
    match f s xs with
    | .error e => .error e
    | .ok (s, rest) => untilEmpty f fuel s rest

/-- **The bound is no bound**: if every round consumes, the length of the input is enough, and
    more changes nothing. -/
theorem untilEmpty_fuel {f : σ → Parser ι ε σ} (hf : ∀ s, Consumes (f s)) {fuel : Nat} :
    ∀ {fuel' : Nat} {s : σ} {xs : List ι}, xs.length ≤ fuel → xs.length ≤ fuel' →
      untilEmpty f fuel s xs = untilEmpty f fuel' s xs := by
  induction fuel with
  | zero =>
    intro fuel' s xs h _
    cases length_eq_zero_iff.mp (Nat.le_zero.mp h)
    cases fuel' <;> rfl
  | succ fuel ih =>
    intro fuel' s xs h h'
    cases xs with
    | nil => cases fuel' <;> rfl
    | cons x xs =>
      cases fuel' with
      | zero => cases h'
      | succ fuel' =>
        unfold untilEmpty
        cases hx : f s (x :: xs) with
        | error e => rfl
        | ok r =>
          have hlen := hf s _ r.1 r.2 hx
          exact ih (by omega) (by omega)

/-- One round, and then the others. -/
theorem untilEmpty_cons {f : σ → Parser ι ε σ} (hf : ∀ s, Consumes (f s)) (s : σ) (hxs : xs ≠ []) :
    untilEmpty f xs.length s xs =
      match f s xs with
      | .error e => .error e
      | .ok (s, rest) => untilEmpty f rest.length s rest := by
  cases xs with
  | nil => exact absurd rfl hxs
  | cons x xs =>
    simp only [length_cons, untilEmpty]
    cases hx : f s (x :: xs) with
    | error e => rfl
    | ok r =>
      have hlen := hf s _ r.1 r.2 hx
      rw [length_cons] at hlen
      exact untilEmpty_fuel hf (by omega) (Nat.le_refl _)

end MoqGo.Lib
