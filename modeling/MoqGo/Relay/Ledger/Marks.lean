import MoqGo.Relay.Ledger.Basic

/-!
# Marks: what a Group's or Subgroup's summary says

`subgroupLedger` and `deliveredGroup` summarise what was said about one Subgroup or Group by
five fields: the largest Normal and status Object IDs, and one end. What was *said* is a set
of `Mark`s. Two marks are compatible when §12.1 has nothing against them together, and the
summary decides exactly that: **a check of the source passes if and only if the new mark is
compatible with every earlier one** (`past_iff`, `end_iff`).

That the summary loses nothing is not obvious: `end.with` forgets a hard end at `M+1` for a
status end at `M`, and from then on a second hard end is compared with `M` alone. It is right
because ends never come alone. A status end at `M` comes with the status Object `M`, and a hard
end at `N+1` with the Normal Object `N` (`Closed`), so that the maxima catch what the end no
longer says.
-/

namespace MoqGo.Relay

open Bool

/-- One statement about a Group or Subgroup: an Object received, or where it ends. -/
inductive Mark
  | normal (id : UInt64)
  | status (id : UInt64)
  | soft (atID : UInt64)
  | hard (atID : UInt64)
deriving DecidableEq, Repr

namespace Mark

/-- §12.1 has nothing against both. A status end at `M` and a hard end at `M+1` agree: Object
    `M` went from existing to not existing. -/
def Compat : Mark → Mark → Prop
  | normal x, soft s => x ≤ s
  | soft s, normal x => x ≤ s
  | normal x, hard h => x < h
  | hard h, normal x => x < h
  | status x, soft s => x ≤ s
  | soft s, status x => x ≤ s
  | status x, hard h => x ≤ h
  | hard h, status x => x ≤ h
  | soft s, soft s' => s = s'
  | hard h, hard h' => h = h'
  | soft s, hard h => h = s ∨ h = s + 1
  | hard h, soft s => h = s ∨ h = s + 1
  | normal _, normal _ => True
  | normal _, status _ => True
  | status _, normal _ => True
  | status _, status _ => True

instance : ∀ a b, Decidable (Compat a b)
  | normal _, soft _ | soft _, normal _ | normal _, hard _ | hard _, normal _
  | status _, soft _ | soft _, status _ | status _, hard _ | hard _, status _
  | soft _, soft _ | hard _, hard _ | soft _, hard _ | hard _, soft _
  | normal _, normal _ | normal _, status _ | status _, normal _ | status _, status _ => by
    unfold Compat; infer_instance

theorem Compat.symm {a b : Mark} (h : a.Compat b) : b.Compat a := by
  cases a <;> cases b <;> simp only [Compat] at h ⊢ <;> first | exact h | exact h.symm

/-- An Object received, by its status. -/
def received (normal : Bool) (id : UInt64) : Mark := if normal then .normal id else .status id

def ending (atID : UInt64) (hard : Bool) : Mark := if hard then .hard atID else .soft atID

variable {a : UInt64}

theorem ending_inj {b : UInt64} {h k : Bool} : ending a h = ending b k ↔ a = b ∧ h = k := by
  cases h <;> cases k <;> simp [ending]

theorem received_inj {b : UInt64} {n k : Bool} : received n a = received k b ↔ a = b ∧ n = k := by
  cases n <;> cases k <;> simp [received]

theorem ending_ne_received {id : UInt64} {h normal : Bool} : ending a h ≠ received normal id := by
  cases h <;> cases normal <;> simp [ending, received]

end Mark

/-- Every end in `F` comes with the Object that set it. -/
structure Closed (F : Set Mark) : Prop where
  soft : ∀ s, .soft s ∈ F → .status s ∈ F
  hard : ∀ h, .hard h ∈ F → h ≠ 0 ∧ .normal (h - 1) ∈ F

/-- The marks of `F` are pairwise compatible, each with itself too. -/
def Consistent (F : Set Mark) : Prop := ∀ f ∈ F, ∀ f' ∈ F, f.Compat f'

/-- The end at `atID` is what the Object `id` itself sets: a status Object ends where it is, a
    Normal one after it. -/
def SetsEnd (id : UInt64) (normal : Bool) (atID : UInt64) (hard : Bool) : Prop :=
  normal = false ∧ hard = false ∧ atID = id ∨
    normal = true ∧ hard = true ∧ atID = id + 1 ∧ atID ≠ 0

section Insert

variable {F : Set Mark} {id atID : UInt64} {normal hard : Bool}

theorem Consistent.received (hF : Consistent F) (hrec : ∀ f ∈ F, f.Compat (.received normal id)) :
    Consistent (insert (.received normal id) F) := by
  rintro f (rfl | hf) f' (rfl | hf')
  · cases normal <;> trivial
  · exact (hrec f' hf').symm
  · exact hrec f hf
  · exact hF f hf f' hf'

theorem Closed.received (hc : Closed F) : Closed (insert (.received normal id) F) := by
  refine ⟨fun s hs => .inr (hc.soft s (hs.resolve_left ?_)), fun h hh => ?_⟩
  · cases normal <;> simp [Mark.received]
  · obtain ⟨hpos, hlast⟩ := hc.hard h (hh.resolve_left (by cases normal <;> simp [Mark.received]))
    exact ⟨hpos, .inr hlast⟩

theorem Closed.ending (hc : Closed F) (hown : SetsEnd id normal atID hard)
    (hobj : .received normal id ∈ F) : Closed (insert (.ending atID hard) F) := by
  refine ⟨fun s hs => ?_, fun h hh => ?_⟩
  · rcases hs with hs | hs
    · rcases hown with ⟨rfl, rfl, rfl⟩ | ⟨rfl, rfl, rfl, -⟩
      · cases hs
        exact .inr hobj
      · cases hs
    · exact .inr (hc.soft s hs)
  · rcases hh with hh | hh
    · rcases hown with ⟨rfl, rfl, rfl⟩ | ⟨rfl, rfl, rfl, hpos⟩
      · cases hh
      · cases hh
        refine ⟨hpos, .inr ?_⟩
        rwa [show id + 1 - 1 = id by grind]
    · exact ⟨(hc.hard h hh).1, .inr (hc.hard h hh).2⟩

theorem Closed.of_setsEnd (h : ∀ atID hard, .ending atID hard ∈ F →
      ∃ id normal, SetsEnd id normal atID hard ∧ .received normal id ∈ F) : Closed F := by
  refine ⟨fun s hs => ?_, fun h' hh => ?_⟩
  · obtain ⟨id, normal, hown, hmem⟩ := h s false hs
    rcases hown with ⟨rfl, -, rfl⟩ | ⟨-, hf, -⟩
    · exact hmem
    · cases hf
  · obtain ⟨id, normal, hown, hmem⟩ := h h' true hh
    rcases hown with ⟨-, hf, -⟩ | ⟨rfl, -, rfl, hpos⟩
    · cases hf
    · refine ⟨hpos, ?_⟩
      rwa [show id + 1 - 1 = id by grind]

theorem SetsEnd.compat (hown : SetsEnd id normal atID hard) :
    (Mark.received normal id).Compat (.ending atID hard) := by
  rcases hown with ⟨rfl, rfl, rfl⟩ | ⟨rfl, rfl, rfl, hpos⟩ <;>
    simp only [Mark.received, Mark.ending, Mark.Compat] <;> grind

end Insert

/-- The summary `m` stands for the marks `F`. -/
structure Marks.Rep (m : Marks) (F : Set Mark) : Prop where
  normal_le : ∀ x, .normal x ∈ F → m.hasNormal = true ∧ x ≤ m.maxNormal
  normal_mem : m.hasNormal = true → .normal m.maxNormal ∈ F
  normal_zero : m.hasNormal = false → m.maxNormal = 0
  status_le : ∀ x, .status x ∈ F → m.hasStatus = true ∧ x ≤ m.maxStatus
  status_mem : m.hasStatus = true → .status m.maxStatus ∈ F
  status_zero : m.hasStatus = false → m.maxStatus = 0
  soft_at : ∀ s, .soft s ∈ F → m.ending.set = true ∧ m.ending.atID = s
  hard_at : ∀ h, .hard h ∈ F → m.ending.set = true ∧
    (m.ending.atID = h ∨ m.ending.atID + 1 = h ∧ .soft m.ending.atID ∈ F)
  set_mem : m.ending.set = true → .soft m.ending.atID ∈ F ∨ .hard m.ending.atID ∈ F
  hard_iff : m.ending.set = true → (m.ending.hard = true ↔ .hard m.ending.atID ∈ F)

namespace Marks.Rep

variable {m : Marks} {F : Set Mark} {id atID : UInt64} {normal hard : Bool}

theorem empty : Marks.Rep {} ∅ := by
  constructor <;> simp

theorem past_iff (hr : m.Rep F) (hc : Closed F) :
    m.ending.past id normal = false ↔ ∀ f ∈ F, f.Compat (.received normal id) := by
  constructor
  · intro hpast f hf
    cases f with
    | normal => cases normal <;> trivial
    | status => cases normal <;> trivial
    | soft s =>
      obtain ⟨hset, hat⟩ := hr.soft_at s hf
      cases normal <;> simp only [Mark.received, Mark.Compat, End.past] at hpast ⊢ <;> grind
    | hard h =>
      obtain ⟨hset, hat⟩ := hr.hard_at h hf
      have hpos := (hc.hard h hf).1
      have hiff := hr.hard_iff hset
      cases normal <;> simp only [Mark.received, Mark.Compat, End.past] at hpast ⊢ <;> grind
  · intro hall
    by_contra hpast
    simp only [End.past, not_eq_false, and_eq_true, or_eq_true,
      decide_eq_true_eq, beq_iff_eq] at hpast
    obtain ⟨hset, hpast⟩ := hpast
    have hiff := hr.hard_iff hset
    rcases hr.set_mem hset with hf | hf
    · have := hall _ hf
      rcases hpast with hlt | ⟨⟨heq, rfl⟩, hhard⟩
      · cases normal <;> simp only [Mark.received, Mark.Compat] at this <;> grind
      · have := hall _ (hiff.mp hhard)
        simp only [Mark.received, Mark.Compat] at this
        grind
    · have := hall _ hf
      cases normal <;> simp only [Mark.received, Mark.Compat] at this <;> grind

theorem received (hr : m.Rep F) (normal : Bool) (id : UInt64) :
    (m.received normal id).Rep (insert (.received normal id) F) := by
  obtain ⟨hn, hnm, hn0, hs, hsm, hs0, hsoft, hhard, hset, hiff⟩ := hr
  cases normal with
  | true =>
    simp only [Marks.received, Mark.received, if_true]
    refine ⟨fun x hx => ?_, fun _ => ?_, fun h => absurd h (by simp), fun x hx => ?_,
      fun h => .inr (hsm h), hs0, fun s h => ?_, fun h hh => ?_, fun h => ?_, fun h => ?_⟩
    · rcases hx with hx | hx
      · cases hx
        grind
      · grind
    · by_cases h : m.hasNormal = true
      · grind
      · grind
    · exact hs x (hx.resolve_left (by simp))
    · exact hsoft s (h.resolve_left (by simp))
    · grind
    · exact (hset h).imp .inr .inr
    · simpa using hiff h
  | false =>
    simp only [Marks.received, Mark.received, false_eq_true, if_false]
    refine ⟨fun x hx => ?_, fun h => .inr (hnm h), hn0, fun x hx => ?_, fun _ => ?_,
      fun h => absurd h (by simp), fun s h => ?_, fun h hh => ?_, fun h => ?_, fun h => ?_⟩
    · exact hn x (hx.resolve_left (by simp))
    · rcases hx with hx | hx
      · cases hx
        grind
      · grind
    · by_cases h : m.hasStatus = true
      · grind
      · grind
    · exact hsoft s (h.resolve_left (by simp))
    · grind
    · exact (hset h).imp .inr .inr
    · simpa using hiff h

/-! ## Ends

The Object that sets an end is in `F` already: `Closed` is for `F` with the end added. -/

theorem pastEnd_iff (hr : m.Rep F) {ended : End} :
    m.pastEnd ended = false ↔ (∀ x, .normal x ∈ F → ended.past x true = false) ∧
      ∀ x, .status x ∈ F → ended.past x false = false := by
  -- past is monotone in the ID, so the maxima decide
  have hmono : ∀ {x y : UInt64} {b : Bool}, x ≤ y → ended.past x b = true →
      ended.past y b = true := by
    intro x y b hle h
    simp only [End.past, and_eq_true, or_eq_true, decide_eq_true_eq, beq_iff_eq] at h ⊢
    grind
  simp only [Marks.pastEnd, or_eq_false_iff, and_eq_false_iff]
  constructor
  · rintro ⟨hn, hs⟩
    refine ⟨fun x hx => ?_, fun x hx => ?_⟩
    · obtain ⟨hhas, hle⟩ := hr.normal_le x hx
      have := hn.resolve_left (by simp [hhas])
      by_contra h
      rw [hmono hle (by simpa using h)] at this
      cases this
    · obtain ⟨hhas, hle⟩ := hr.status_le x hx
      have := hs.resolve_left (by simp [hhas])
      by_contra h
      rw [hmono hle (by simpa using h)] at this
      cases this
  · rintro ⟨hn, hs⟩
    constructor
    · by_cases h : m.hasNormal = true
      · exact .inr (hn _ (hr.normal_mem h))
      · exact .inl (by simpa using h)
    · by_cases h : m.hasStatus = true
      · exact .inr (hs _ (hr.status_mem h))
      · exact .inl (by simpa using h)

section

variable (hr : m.Rep F) (hF : Consistent F) (hc : Closed F)
include hr hF hc

theorem ending_cases :
    m.ending.set = false ∧ (∀ s, .soft s ∉ F) ∧ (∀ h, .hard h ∉ F) ∨
    m.ending.set = true ∧ m.ending.hard = true ∧ .hard m.ending.atID ∈ F ∧ m.ending.atID ≠ 0 ∧
      (∀ h, .hard h ∈ F → h = m.ending.atID) ∧ (∀ s, .soft s ∈ F → s = m.ending.atID) ∨
    m.ending.set = true ∧ m.ending.hard = false ∧ .soft m.ending.atID ∈ F ∧
      (∀ h, .hard h ∈ F → h = m.ending.atID + 1 ∧ h ≠ 0 ∧ .normal m.ending.atID ∈ F) ∧
      (∀ s, .soft s ∈ F → s = m.ending.atID) := by
  by_cases hset : m.ending.set = true
  · right
    have hiff := hr.hard_iff hset
    have hsofts : ∀ s, .soft s ∈ F → s = m.ending.atID := fun s hs => (hr.soft_at s hs).2.symm
    by_cases hhard : m.ending.hard = true
    · left
      have hmem := hiff.mp hhard
      refine ⟨hset, hhard, hmem, (hc.hard _ hmem).1, fun h hh => ?_, hsofts⟩
      exact hF _ hh _ hmem
    · right
      rw [not_eq_true] at hhard
      have hnot : .hard m.ending.atID ∉ F := fun h => by simp [hiff.mpr h] at hhard
      refine ⟨hset, hhard, (hr.set_mem hset).resolve_right hnot, fun h hh => ?_, hsofts⟩
      obtain ⟨hpos, hlast⟩ := hc.hard h hh
      rcases (hr.hard_at h hh).2 with rfl | ⟨rfl, -⟩
      · exact absurd hh hnot
      · refine ⟨rfl, hpos, ?_⟩
        rwa [show m.ending.atID + 1 - 1 = m.ending.atID by grind] at hlast
  · left
    rw [not_eq_true] at hset
    exact ⟨hset, fun s hs => by simp [(hr.soft_at s hs).1] at hset,
      fun h hh => by simp [(hr.hard_at h hh).1] at hset⟩

/-- **An end is refused exactly when it contradicts a mark**: `conflicts` against the end kept,
    then `pastEnd` against the Objects received. -/
theorem end_iff (hset : Closed (insert (.ending atID hard) F)) :
    m.ending.conflicts atID hard = false ∧ m.pastEnd (m.ending.withEnd atID hard) = false ↔
      ∀ f ∈ F, f.Compat (.ending atID hard) := by
  rw [hr.pastEnd_iff]
  have hcases := hr.ending_cases hF hc
  cases hard with
  | false =>
    simp only [Mark.ending, false_eq_true, if_false]
    constructor
    · rintro ⟨hconf, hn, hs⟩ f hf
      have hclosed := hc.soft
      unfold End.conflicts at hconf
      cases f with
      | normal x =>
        have := hn x hf
        simp only [Mark.Compat, End.past, End.withEnd] at this ⊢
        grind
      | status x =>
        have := hs x hf
        simp only [Mark.Compat, End.past, End.withEnd] at this ⊢
        grind
      | soft s =>
        have := hs s (hclosed s hf)
        simp only [Mark.Compat, End.past, End.withEnd] at this ⊢
        grind
      | hard h =>
        simp only [Mark.Compat]
        grind
    · intro hall
      have hsoft : ∀ s, .soft s ∈ F → s = atID := fun s hs => hall _ hs
      have hhard : ∀ h, .hard h ∈ F → h = atID ∨ h = atID + 1 := fun h hh => hall _ hh
      have hnh : ∀ x h, .normal x ∈ F → .hard h ∈ F → x < h := fun x h hx hh => hF _ hx _ hh
      refine ⟨?_, fun x hx => ?_, fun x hx => ?_⟩
      · unfold End.conflicts
        grind
      · have : x ≤ atID := hall _ hx
        simp only [End.past, End.withEnd]
        grind
      · have : x ≤ atID := hall _ hx
        simp only [End.past, End.withEnd]
        grind
  | true =>
    obtain ⟨hpos, hobj⟩ := hset.hard atID (by simp [Mark.ending])
    simp only [Mark.ending, if_true]
    constructor
    · rintro ⟨hconf, hn, hs⟩ f hf
      unfold End.conflicts at hconf
      cases f with
      | normal x =>
        have := hn x hf
        simp only [Mark.Compat, End.past, End.withEnd] at this ⊢
        grind
      | status x =>
        have := hs x hf
        simp only [Mark.Compat, End.past, End.withEnd] at this ⊢
        grind
      | soft s =>
        simp only [Mark.Compat]
        grind
      | hard h =>
        -- a hard end forgotten for a status end below it left its Object behind
        have hlast := hn (h - 1) (hc.hard h hf).2
        simp only [Mark.Compat, End.past, End.withEnd] at hlast ⊢
        grind
    · intro hall
      have hsoft : ∀ s, .soft s ∈ F → atID = s ∨ atID = s + 1 := fun s hs => hall _ hs
      have hhard : ∀ h, .hard h ∈ F → h = atID := fun h hh => hall _ hh
      refine ⟨?_, fun x hx => ?_, fun x hx => ?_⟩
      · unfold End.conflicts
        grind
      · have : x < atID := hall _ hx
        simp only [End.past, End.withEnd]
        grind
      · have : x ≤ atID := hall _ hx
        have hss : ∀ s, .soft s ∈ F → x ≤ s := fun s hs => hF _ hx _ hs
        simp only [End.past, End.withEnd]
        grind

theorem withEnd
    (hset : Closed (insert (.ending atID hard) F)) (hall : ∀ f ∈ F, f.Compat (.ending atID hard)) :
    Marks.Rep { m with ending := m.ending.withEnd atID hard } (insert (.ending atID hard) F) := by
  have hcases := hr.ending_cases hF hc
  obtain ⟨hn, hnm, hn0, hs, hsm, hs0, -, -, -, -⟩ := hr
  cases hard with
  | false =>
    simp only [Mark.ending, false_eq_true, if_false] at hall ⊢
    have hsoft : ∀ s, .soft s ∈ F → s = atID := fun s hs => hall _ hs
    have hhard : ∀ h, .hard h ∈ F → h = atID ∨ h = atID + 1 := fun h hh => hall _ hh
    refine ⟨fun x hx => hn x (hx.resolve_left (by simp)), fun h => .inr (hnm h), hn0,
      fun x hx => hs x (hx.resolve_left (by simp)), fun h => .inr (hsm h), hs0, ?_, ?_, ?_, ?_⟩ <;>
      simp only [Set.mem_insert_iff, End.withEnd] <;> grind
  | true =>
    have hpos := (hset.hard atID (by simp [Mark.ending])).1
    simp only [Mark.ending, if_true] at hall ⊢
    have hsoft : ∀ s, .soft s ∈ F → atID = s ∨ atID = s + 1 := fun s hs => hall _ hs
    have hhard : ∀ h, .hard h ∈ F → h = atID := fun h hh => hall _ hh
    refine ⟨fun x hx => hn x (hx.resolve_left (by simp)), fun h => .inr (hnm h), hn0,
      fun x hx => hs x (hx.resolve_left (by simp)), fun h => .inr (hsm h), hs0, ?_, ?_, ?_, ?_⟩ <;>
      simp only [Set.mem_insert_iff, End.withEnd] <;> grind

theorem object_end_iff (hown : SetsEnd id normal atID hard) :
    m.ending.past id normal = false ∧ m.ending.conflicts atID hard = false ∧
        m.pastEnd (m.ending.withEnd atID hard) = false ↔
      (∀ f ∈ F, f.Compat (.received normal id)) ∧ ∀ f ∈ F, f.Compat (.ending atID hard) := by
  rw [hr.past_iff hc]
  refine and_congr_right fun hrec => ?_
  have hpast := (hr.past_iff hc).mpr hrec
  -- the Object itself is not past the end it sets
  have hself : m.ending.conflicts atID hard = false →
      (m.ending.withEnd atID hard).past id normal = false := by
    intro hconf
    simp only [SetsEnd, End.past, End.conflicts, End.withEnd] at hown hpast hconf ⊢
    grind
  have hiff := (hr.received normal id).end_iff (hF.received hrec) hc.received
    (hc.received.ending hown (Set.mem_insert _ _))
  rw [(hr.received normal id).pastEnd_iff] at hiff
  rw [hr.pastEnd_iff]
  have hending : (m.received normal id).ending = m.ending := by cases normal <;> rfl
  rw [hending] at hiff
  constructor
  · rintro ⟨hconf, hn, hs⟩ f hf
    refine hiff.mp ⟨hconf, fun x hx => ?_, fun x hx => ?_⟩ f (.inr hf)
    · rcases hx with hx | hx
      · cases normal <;> cases hx
        exact hself hconf
      · exact hn x hx
    · rcases hx with hx | hx
      · cases normal <;> cases hx
        exact hself hconf
      · exact hs x hx
  · intro hall
    obtain ⟨hconf, hn, hs⟩ := hiff.mpr (by
      rintro f (rfl | hf)
      · exact hown.compat
      · exact hall f hf)
    exact ⟨hconf, fun x hx => hn x (.inr hx), fun x hx => hs x (.inr hx)⟩

theorem object_end
    (hown : SetsEnd id normal atID hard) (hrec : ∀ f ∈ F, f.Compat (.received normal id))
    (hall : ∀ f ∈ F, f.Compat (.ending atID hard)) : Marks.Rep { m.received normal id with
        ending := (m.received normal id).ending.withEnd atID hard }
      (insert (.ending atID hard) (insert (.received normal id) F)) := by
  refine (hr.received normal id).withEnd (hF.received hrec) hc.received
    (hc.received.ending hown (Set.mem_insert _ _)) ?_
  rintro f (rfl | hf)
  · exact hown.compat
  · exact hall f hf

end

end Marks.Rep
end MoqGo.Relay
