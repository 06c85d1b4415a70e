import MoqGo.Lib.Runs
import MoqGo.Relay.Fanout.WriterSet

/-!
# When a merged Subgroup ends with a FIN

A set forgets which Object IDs went through it: it keeps the lowest and the highest, and whether
every ID between them did. `RunOf` is what that summary says, and it holds after any Objects in
any order.

`Merge` is the set with its contributors, each of which reads Objects, forwards those nobody
has, and leaves. What the relay cannot see is an assumption about the contributors: **one that
ends cleanly has read the whole Subgroup from `coverFrom` on**. Under it, a FIN says what it
should: every Object from the lowest one forwarded was (`outcome_complete`).
-/

namespace MoqGo.Relay

open Message List

/-! ## The run -/

namespace WriterSet

/-- The set's summary of the Object IDs forwarded through it. -/
structure RunOf (s : WriterSet) (ids : List UInt64) : Prop where
  hasRun : s.hasRun = true ↔ ids ≠ []
  lo_mem : s.hasRun = true → s.runLo ∈ ids
  lo_le : ∀ x ∈ ids, s.runLo ≤ x
  hi_mem : s.hasRun = true → s.runHi ∈ ids
  le_hi : ∀ x ∈ ids, x ≤ s.runHi
  unbroken : s.unbroken = true →
    s.hasRun = true ∧ ∀ x, s.runLo ≤ x → x ≤ s.runHi → x ∈ ids

theorem RunOf.new (hdr : SubgroupHeader) : RunOf { hdr := hdr } [] := by
  refine ⟨?_, ?_, ?_, ?_, ?_, ?_⟩ <;> simp

variable {s : WriterSet} {ids : List UInt64}

theorem RunOf.lower (h : s.RunOf ids) (id : UInt64) : (s.lower id).RunOf ids := by
  unfold WriterSet.lower
  split
  · exact ⟨h.hasRun, h.lo_mem, h.lo_le, h.hi_mem, h.le_hi, h.unbroken⟩
  · exact h

theorem RunOf.extendRun (h : s.RunOf ids) (id : UInt64) : (s.extendRun id).RunOf (id :: ids) := by
  unfold WriterSet.extendRun
  split
  · next hrun =>
    have hnil : ids = [] := by
      by_contra hne
      simp [h.hasRun.mpr hne] at hrun
    subst hnil
    refine ⟨by simp, by simp, by simp, by simp, by simp, fun _ => ⟨rfl, ?_⟩⟩
    intro x hlo hhi
    exact mem_singleton.mpr (UInt64.le_antisymm hhi hlo)
  · next hrun =>
    have hrun : s.hasRun = true := by simpa using hrun
    have hlohi := h.lo_le _ (h.hi_mem hrun)
    split
    · next hext =>
      simp only [Bool.and_eq_true, decide_eq_true_eq, beq_iff_eq] at hext
      obtain ⟨hmax, rfl⟩ := hext
      refine ⟨by simp [hrun], fun _ => .tail _ (h.lo_mem hrun), ?_, by simp, ?_, ?_⟩
      · intro x hx
        rcases mem_cons.mp hx with rfl | hx
        · grind
        · exact h.lo_le x hx
      · intro x hx
        rcases mem_cons.mp hx with rfl | hx
        · exact UInt64.le_refl _
        · have := h.le_hi x hx
          grind
      · intro hun
        refine ⟨hrun, ?_⟩
        intro x hlo hhi
        by_cases hx : x = s.runHi + 1
        · exact hx ▸ .head _
        · exact .tail _ ((h.unbroken hun).2 x hlo (by grind))
    · split
      · next hext =>
        simp only [Bool.and_eq_true, decide_eq_true_eq, beq_iff_eq] at hext
        obtain ⟨hpos, rfl⟩ := hext
        refine ⟨by simp [hrun], by simp, ?_, fun _ => .tail _ (h.hi_mem hrun), ?_, ?_⟩
        · intro x hx
          rcases mem_cons.mp hx with rfl | hx
          · exact UInt64.le_refl _
          · have := h.lo_le x hx
            grind
        · intro x hx
          rcases mem_cons.mp hx with rfl | hx
          · grind
          · exact h.le_hi x hx
        · intro hun
          refine ⟨hrun, ?_⟩
          intro x hlo hhi
          by_cases hx : x = s.runLo - 1
          · exact hx ▸ .head _
          · exact .tail _ ((h.unbroken hun).2 x (by grind) hhi)
      · refine ⟨by simp [hrun], fun _ => ?_, ?_, fun _ => ?_, ?_, fun h => absurd h nofun⟩
        · have := h.lo_mem hrun
          simp only [uint64_min_def]
          split_ifs <;> simp_all
        · intro x hx
          rcases mem_cons.mp hx with rfl | hx
          · grind
          · have := h.lo_le x hx
            grind
        · have := h.hi_mem hrun
          simp only [uint64_max_def]
          split_ifs <;> simp_all
        · intro x hx
          rcases mem_cons.mp hx with rfl | hx
          · grind
          · have := h.le_hi x hx
            grind

theorem RunOf.claimFirst (h : s.RunOf ids) (id : UInt64) (claimed : Bool) :
    (s.claimFirst id claimed).1.RunOf (id :: ids) :=
  (h.lower id).extendRun id

theorem RunOf.leave (h : s.RunOf ids) (reset : Bool) (code : StreamResetCode) (covers : Bool)
    (coverFrom : UInt64) : (s.leave reset code covers coverFrom).RunOf ids := by
  unfold WriterSet.leave
  split_ifs
  all_goals exact ⟨h.hasRun, h.lo_mem, h.lo_le, h.hi_mem, h.le_hi, h.unbroken⟩

end WriterSet

/-! ## The contributors -/

/-- One inbound stream of the Subgroup, as far as the outcome goes: what it covers, the Objects it
    has `read`, and the one it is to forward. -/
structure Merge.Contributor extends Cover where
  read : List UInt64 := []
  pending : Option UInt64 := none
  left : Bool := false
deriving DecidableEq, Repr

/-- The contributor has read Object `id`, which it is to forward or not. -/
def Merge.Contributor.reads (ct : Merge.Contributor) (id : UInt64) (forwards : Bool) :
    Merge.Contributor :=
  { ct with
    toCover := ct.toCover.read id
    read := id :: ct.read
    pending := if forwards then some id else none }

/-- The contributor has read the Objects of `S` from where its cover starts. -/
def Merge.Contributor.CoversAll (ct : Merge.Contributor) (S : Finset UInt64) : Prop :=
  ∀ x ∈ S, ct.coverFrom ≤ x → x ∈ ct.read

instance (ct : Merge.Contributor) (S : Finset UInt64) : Decidable (ct.CoversAll S) :=
  @Finset.decidableDforallFinset UInt64 S (fun x _ => ct.coverFrom ≤ x → x ∈ ct.read)
    fun _ _ => inferInstance

/-- A set, the Object IDs `through` which it forwarded, the ones `claimed` by a contributor that
    forwards them, and the contributors. -/
structure Merge where
  set : WriterSet
  through : List UInt64 := []
  claimed : List UInt64 := []
  contribs : Nat → Option Merge.Contributor := fun _ => none

namespace Merge

inductive Action
  /-- A contributor joins; `replaying` is its stream's header. -/
  | attach (c : Nat) (replaying : Bool)
  /-- The creator seeds `lowest` with the ledger's. -/
  | seed (lowest : UInt64)
  /-- `c` reads an Object, which it then forwards or not. -/
  | read (c : Nat) (id : UInt64) (forwards : Bool)
  /-- `c` forwards the Object it read. -/
  | forward (c : Nat)
  /-- `c` leaves, its stream reset with `code` or ended cleanly. -/
  | leave (c : Nat) (reset : Bool) (code : StreamResetCode)

/-- Contributor `c` becomes `ct`. -/
def put (m : Merge) (c : Nat) (ct : Contributor) : Merge :=
  { m with contribs := Function.update m.contribs c (some ct) }

/-- One step. `S` are the Object IDs of the Subgroup, `before` those the ledger saw forwarded
    before the set was made. -/
def step (S before : Finset UInt64) (m : Merge) : Action → Option Merge
  | .attach c replaying =>
    match m.contribs c with
    | none => some (m.put c { covers := !replaying })
    | some _ => none
  | .seed lowest => some { m with set := m.set.lower lowest }
  | .read c id forwards => do
    let ct ← m.contribs c
    -- an Object it does not forward was forwarded already, or is another's to forward
    if ct.left = false ∧ ct.pending = none ∧ id ∈ S ∧
        (forwards = true ∨ id ∈ before ∨ id ∈ m.claimed) then
      some { m.put c (ct.reads id forwards) with
        claimed := if forwards then id :: m.claimed else m.claimed }
    else none
  | .forward c => do
    let ct ← m.contribs c
    let id ← ct.pending
    return { m.put c { ct with pending := none } with
      set := (m.set.claimFirst id false).1
      through := id :: m.through }
  | .leave c reset code => do
    let ct ← m.contribs c
    if ct.left = false ∧ ct.pending = none ∧
        (reset = false → ct.covers = true → ct.CoversAll S) then
      some { m.put c { ct with left := true } with
        set := m.set.leave reset code ct.covers ct.coverFrom }
    else none

variable {S before : Finset UInt64} {m : Merge} {c : Nat} {ct : Contributor}

/-- Some contributor is about to forward Object `x`. -/
def Pends (m : Merge) (x : UInt64) : Prop :=
  ∃ c ct, m.contribs c = some ct ∧ ct.pending = some x

/-- What holds along every run. -/
structure Inv (S before : Finset UInt64) (m : Merge) : Prop where
  run : m.set.RunOf m.through
  /-- What was claimed was forwarded, or is about to be. -/
  claimed : ∀ x ∈ m.claimed, x ∈ m.through ∨ m.Pends x
  read : ∀ c ct, m.contribs c = some ct → ∀ x ∈ ct.read, x ∈ before ∨ x ∈ m.claimed
  gone : ∀ c ct, m.contribs c = some ct → ct.left = true → ct.pending = none
  /-- A clean contributor has read the Subgroup from `cleanFrom` on. -/
  clean : m.set.sawClean = true → ∀ x ∈ S, m.set.cleanFrom ≤ x → x ∈ before ∨ x ∈ m.claimed

theorem Inv.new (hdr : SubgroupHeader) : Inv S before { set := { hdr := hdr } } :=
  ⟨.new hdr, by simp, by simp, by simp, by simp⟩

theorem lower_clean (s : WriterSet) (id : UInt64) :
    (s.lower id).sawClean = s.sawClean ∧ (s.lower id).cleanFrom = s.cleanFrom := by
  unfold WriterSet.lower
  split <;> exact ⟨rfl, rfl⟩

theorem claimFirst_clean (s : WriterSet) (id : UInt64) (claimed : Bool) :
    (s.claimFirst id claimed).1.sawClean = s.sawClean ∧
      (s.claimFirst id claimed).1.cleanFrom = s.cleanFrom := by
  rw [← (lower_clean s id).1, ← (lower_clean s id).2]
  unfold WriterSet.claimFirst WriterSet.extendRun
  split_ifs <;> exact ⟨rfl, rfl⟩

theorem put_contribs {c' : Nat} {ct' : Contributor} (h : (m.put c ct).contribs c' = some ct') :
    c' = c ∧ ct' = ct ∨ m.contribs c' = some ct' := by
  by_cases hc : c' = c
  · subst hc
    simp only [put, Function.update_self, Option.some.injEq] at h
    exact .inl ⟨rfl, h.symm⟩
  · exact .inr (by simpa [put, Function.update_of_ne hc] using h)

theorem Pends.put {x : UInt64} (h : m.Pends x)
    (hc : ∀ ct', m.contribs c = some ct' → ct'.pending ≠ some x) : (m.put c ct).Pends x := by
  obtain ⟨c', ct', hc', hp⟩ := h
  have hne : c' ≠ c := by
    rintro rfl
    exact hc ct' hc' hp
  exact ⟨c', ct', by simpa [Merge.put, Function.update_of_ne hne] using hc', hp⟩

/-- Contributor `c` becomes `ct'`: what it was about to forward has to be accounted for. -/
theorem Inv.put {ct' : Contributor} {set : WriterSet} {through claimed : List UInt64}
    (hi : Inv S before m) (hrun : set.RunOf through) (hthrough : m.through ⊆ through)
    (hclaimed : m.claimed ⊆ claimed)
    (hout : ∀ x ∈ claimed, x ∈ through ∨ ct'.pending = some x ∨
      x ∈ m.claimed ∧ ∀ ct, m.contribs c = some ct → ct.pending ≠ some x)
    (hread : ∀ x ∈ ct'.read, x ∈ before ∨ x ∈ claimed)
    (hgone : ct'.left = true → ct'.pending = none)
    (hclean : set.sawClean = true → ∀ x ∈ S, set.cleanFrom ≤ x → x ∈ before ∨ x ∈ claimed) :
    Inv S before { m.put c ct' with set := set, through := through, claimed := claimed } := by
  refine ⟨hrun, fun x hx => ?_, fun c' ct'' hc' x hx => ?_, fun c' ct'' hc' hl => ?_, hclean⟩
  · rcases hout x hx with hx | hx | ⟨hx, hne⟩
    · exact .inl hx
    · exact .inr ⟨c, ct', by simp [Merge.put], hx⟩
    · exact (hi.claimed x hx).imp (@hthrough x) fun h => h.put hne
  · rcases put_contribs hc' with ⟨rfl, rfl⟩ | hc'
    · exact hread x hx
    · exact (hi.read c' ct'' hc' x hx).imp_right (@hclaimed x)
  · rcases put_contribs hc' with ⟨rfl, rfl⟩ | hc'
    · exact hgone hl
    · exact hi.gone c' ct'' hc' hl

section

variable (hi : Inv S before m) (hc : m.contribs c = some ct)
include hi hc

theorem Inv.reads {id : UInt64} {forwards : Bool} (hleft : ct.left = false)
    (hpend : ct.pending = none) (hknown : forwards = true ∨ id ∈ before ∨ id ∈ m.claimed) :
    Inv S before { m.put c (ct.reads id forwards) with
      claimed := if forwards then id :: m.claimed else m.claimed } := by
  have hmono : m.claimed ⊆ if forwards then id :: m.claimed else m.claimed := by
    split_ifs
    · exact subset_cons_self id m.claimed
    · exact Subset.refl _
  refine hi.put hi.run (Subset.refl _) hmono (fun x hx => .inr ?_) (fun x hx => ?_)
    (fun hl => by cases hleft.symm.trans hl)
    fun hclean x hx hle => (hi.clean hclean x hx hle).imp_right (@hmono x)
  · have hold (hx : x ∈ m.claimed) : x ∈ m.claimed ∧
        ∀ ct, m.contribs c = some ct → ct.pending ≠ some x := by
      simp [hx, hc, hpend]
    split_ifs at hx with hf
    · rcases mem_cons.mp hx with rfl | hx
      · exact .inl (if_pos hf)
      · exact .inr (hold hx)
    · exact .inr (hold hx)
  · rcases mem_cons.mp hx with rfl | hx
    · rcases hknown with hf | hb | hcl
      · simp [hf]
      · exact .inl hb
      · exact .inr (hmono hcl)
    · exact (hi.read c ct hc x hx).imp_right (@hmono x)

theorem Inv.forwards {id : UInt64}
    (hpend : ct.pending = some id) : Inv S before { m.put c { ct with pending := none } with
      set := (m.set.claimFirst id false).1, through := id :: m.through } := by
  refine hi.put (hi.run.claimFirst id false) (subset_cons_self _ _) (Subset.refl _) (fun x hx => ?_)
    (hi.read c ct hc) (fun _ => rfl) ?_
  · by_cases hxid : x = id
    · exact .inl (hxid ▸ .head _)
    · exact .inr (.inr ⟨hx, by simp [hc, hpend, Ne.symm hxid]⟩)
  · rw [(claimFirst_clean m.set id false).1, (claimFirst_clean m.set id false).2]
    exact hi.clean

theorem Inv.leaves {reset : Bool} {code : StreamResetCode} (hpend : ct.pending = none)
    (hcov : reset = false → ct.covers = true → ct.CoversAll S) :
    Inv S before { m.put c { ct with left := true } with
      set := m.set.leave reset code ct.covers ct.coverFrom } := by
  refine hi.put (hi.run.leave reset code ct.covers ct.coverFrom) (Subset.refl _) (Subset.refl _)
    (fun x hx => .inr (.inr ⟨hx, by simp [hc, hpend]⟩)) (hi.read c ct hc) (fun _ => hpend) ?_
  unfold WriterSet.leave
  split_ifs with hreset hlow
  · exact hi.clean
  · intro _ x hx hle
    simp only [Bool.and_eq_true] at hlow
    exact hi.read c ct hc x (hcov (by simpa using hreset) hlow.1 x hx hle)
  · exact hi.clean

end

theorem Inv.step {m' : Merge} {a : Action} (hi : Inv S before m) (h : m.step S before a = some m') :
    Inv S before m' := by
  cases a with
  | attach c replaying =>
    simp only [Merge.step] at h
    split at h
    · next hc =>
      cases h
      exact hi.put hi.run (Subset.refl _) (Subset.refl _)
        (fun x hx => .inr (.inr ⟨hx, by simp [hc]⟩)) nofun nofun hi.clean
    · cases h
  | seed lowest =>
    cases h
    refine ⟨hi.run.lower lowest, hi.claimed, hi.read, hi.gone, ?_⟩
    rw [(lower_clean m.set lowest).1, (lower_clean m.set lowest).2]
    exact hi.clean
  | read c id forwards =>
    obtain ⟨ct, hc, h⟩ := Option.bind_eq_some_iff.mp h
    obtain ⟨⟨hleft, hpend, -, hknown⟩, rfl⟩ := Lib.guard_iff.mp h
    exact hi.reads hc hleft hpend hknown
  | forward c =>
    obtain ⟨ct, hc, h⟩ := Option.bind_eq_some_iff.mp h
    obtain ⟨id, hpend, h⟩ := Option.bind_eq_some_iff.mp h
    cases h
    exact hi.forwards hc hpend
  | leave c reset code =>
    obtain ⟨ct, hc, h⟩ := Option.bind_eq_some_iff.mp h
    obtain ⟨⟨-, hpend, hcov⟩, rfl⟩ := Lib.guard_iff.mp h
    exact hi.leaves hc hpend hcov

/-- **A merged Subgroup FINs only when complete.** In every state, the set's run is what went
    through it; and once every contributor has left, if `outcome` reports no reset, every Object
    of the Subgroup from `lowest` on was forwarded. -/
theorem outcome_complete (S before : Finset UInt64) (hdr : SubgroupHeader) {as : List Action}
    {m : Merge} (hrun : Lib.run (step S before) { set := { hdr := hdr } } as = some m) :
    m.set.RunOf m.through ∧
      ((∀ c ct, m.contribs c = some ct → ct.left = true) → m.set.outcome.1 = false →
        ∀ x ∈ S, m.set.lowest ≤ x → x ∈ before ∨ x ∈ m.through) := by
  have hi : Inv S before m := Lib.run_inv (fun _ _ _ hi h => hi.step h) (.new hdr) hrun
  refine ⟨hi.run, ?_⟩
  intro hleft hout x hx hle
  -- with every contributor gone, what was claimed went through the set
  have hthrough : x ∈ before ∨ x ∈ m.claimed → x ∈ before ∨ x ∈ m.through := by
    intro h
    refine h.imp_right fun hcl => (hi.claimed x hcl).resolve_right ?_
    rintro ⟨c, ct, hc, hp⟩
    rw [hi.gone c ct hc (hleft c ct hc)] at hp
    cases hp
  unfold WriterSet.outcome at hout
  split_ifs at hout with hclean hcover
  have hclean : m.set.sawClean = true := by simpa using hclean
  by_cases hfrom : m.set.cleanFrom ≤ x
  · exact hthrough (hi.clean hclean x hx hfrom)
  · -- below `cleanFrom` the run from `lowest` reaches it
    simp only [Bool.or_eq_true, Bool.and_eq_true, decide_eq_true_eq, beq_iff_eq] at hcover
    rcases hcover with hcover | ⟨⟨hun, hlo⟩, hhi⟩
    · exact absurd (UInt64.le_trans hcover hle) hfrom
    · refine .inr ((hi.run.unbroken hun).2 x (hlo ▸ hle) ?_)
      grind

/-- A replay stream forwards Object 1, another the Object 0 before it: a FIN, and both are out. -/
theorem outcome_complete_two :
    ∃ m : Merge,
      Lib.run (step {0, 1} ∅) { set := { hdr := {} } }
        [.attach 0 true, .attach 1 false, .read 0 1 true, .forward 0, .leave 0 false .cancelled,
          .read 1 0 true, .forward 1, .read 1 1 false, .leave 1 false .cancelled] = some m ∧
      m.set.outcome.1 = false ∧ m.set.lowest = 0 ∧
      ∀ x ∈ ({0, 1} : Finset UInt64), m.set.lowest ≤ x → x ∈ (∅ : Finset UInt64) ∨
        x ∈ m.through := by
  refine ⟨_, rfl, by decide, by decide, ?_⟩
  refine (@outcome_complete {0, 1} ∅ {}
    [.attach 0 true, .attach 1 false, .read 0 1 true, .forward 0, .leave 0 false .cancelled,
      .read 1 0 true, .forward 1, .read 1 1 false, .leave 1 false .cancelled] _ rfl).2 ?_
      (by decide)
  intro c ct hc
  simp only [put, Function.update_apply] at hc
  split_ifs at hc <;> cases hc <;> rfl

end Merge
end MoqGo.Relay
