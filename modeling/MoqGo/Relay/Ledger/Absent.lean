import MoqGo.Relay.Ledger.Window

/-!
# Known absence, and when it is permanent

`KnownAbsent` is what a FETCH asserts not to exist: past a Group's end, and inside a Prior
Object or Group ID Gap. §2.1.2 makes that permanent, so the ledger should never take a Normal
Object there as fresh again.

A Location is **barred** when the ledger refuses to. Ends and Object ID gaps live in their
Group's entry and are forgotten only with it, when the Group is aged out and everything in it
is barred. A Group gap is not tied to an entry: `addDeliveredGroupLocked` prunes it against
the lowest Group *left*, before the new Group is added. The new Group may be lower, and then a
gap above it is forgotten while its Groups are not aged out (`groupGap_forgotten`). Where no
call does that (`KeepsGroupGaps`), absence is permanent (`knownAbsent_permanent`).
-/

namespace MoqGo.Relay

open Message Option

/-! ## Barred Locations -/

namespace Ledger

/-- The ledger recorded `loc`, aged it out, or was told it is absent. -/
def Accounted (e : Ledger) (loc : Location) : Prop :=
  e.Settled loc ∨
    e.announcedAbsent (e.delivered.lookup loc.group) loc.group loc.object = true

/-- A Normal Object at `loc` is past its Group's end. -/
def PastGroupEnd (e : Ledger) (loc : Location) : Prop :=
  ∃ g, e.delivered.lookup loc.group = some g ∧ g.ending.past loc.object true = true

/-- The ledger refuses a Normal Object at `loc`. -/
def Barred (e : Ledger) (loc : Location) : Prop := e.Accounted loc ∨ e.PastGroupEnd loc

def GapsKept (e e' : Ledger) : Prop :=
  ∀ r ∈ e.groupGaps, r ∈ e'.groupGaps ∨ ∀ id, id ≤ r.hi → e'.agesOut id = true

theorem announcedAbsent_iff {e : Ledger} {loc : Location} :
    e.announcedAbsent (e.delivered.lookup loc.group) loc.group loc.object = true ↔
      (∃ r ∈ e.groupGaps, r.contains loc.group = true) ∨
      ∃ g, e.delivered.lookup loc.group = some g ∧
        ∃ r ∈ g.objectGaps, r.contains loc.object = true := by
  unfold announcedAbsent
  cases e.delivered.lookup loc.group <;> simp

theorem IdRange.le_hi {r : IdRange} {id : UInt64} (h : r.contains id = true) : id ≤ r.hi := by
  simp only [IdRange.contains, Bool.and_eq_true, decide_eq_true_eq] at h
  exact h.2

section Stable

variable {e e' : Ledger} {loc : Location} (hev : e.Evolves e') (hgaps : e.GapsKept e')

include hev hgaps

theorem Accounted.stable (h : e.Accounted loc) : e'.Accounted loc := by
  rcases h with h | h
  · exact .inl (h.evolves hev)
  · rw [announcedAbsent_iff] at h
    rcases h with ⟨r, hr, hc⟩ | ⟨g, hg, r, hr, hc⟩
    · rcases hgaps r hr with hr' | hage
      · exact .inr (announcedAbsent_iff.mpr (.inl ⟨r, hr', hc⟩))
      · exact .inl (.inl (hage _ (IdRange.le_hi hc)))
    · rcases hev.held _ g hg with hage | ⟨g', hg', hgrow⟩
      · exact .inl (.inl hage)
      · exact .inr (announcedAbsent_iff.mpr (.inr ⟨g', hg', r, hgrow.objectGaps hr, hc⟩))

theorem Barred.stable (h : e.Barred loc) : e'.Barred loc := by
  rcases h with h | ⟨g, hg, hpast⟩
  · exact .inl (h.stable hev hgaps)
  · rcases hev.held _ g hg with hage | ⟨g', hg', hgrow⟩
    · exact .inl (.inl (.inl hage))
    · refine .inr ⟨g', hg', ?_⟩
      -- a lower end is past all the more; one in place stays hard
      simp only [End.past, Bool.and_eq_true, Bool.or_eq_true, decide_eq_true_eq, beq_iff_eq,
        Bool.and_true] at hpast ⊢
      obtain ⟨hset, hat⟩ := hgrow.ending hpast.1
      refine ⟨hset, ?_⟩
      grind

end Stable

variable {e e₁ e' : Ledger} {o last : ObjectInfo} {atID group object : UInt64} {hard : Bool}
  {g g' : DeliveredGroup} {gaps : PriorGaps} {err : Option Malformed} {r : IdRange}

theorem Barred.not_fresh (h : e.Barred o.loc) (hn : o.normal = true) :
    (e.claimDelivered o).2.1 ≠ .fresh := by
  rcases hr : e.claimDelivered o with ⟨e', claim, err⟩
  rintro rfl
  have hstep := claimDelivered_step hr
  rcases h with (hs | habs) | ⟨g, hg, hpast⟩
  · exact (settled_of_fresh hstep).1 hs
  · cases hstep with
    | fresh _ _ habs' => exact absurd (habs'.symm.trans habs) (by decide)
  · cases hstep with
    | fresh _ hchk =>
      change e.delivered.lookup o.group = some g at hg
      rw [or_eq_none_iff, hg] at hchk
      have hends := hchk.2
      rw [checkEnds, or_eq_none_iff] at hends
      have hgroup := hends.2
      change g.ending.past o.object true = true at hpast
      simp [checkGroup, hn, hpast] at hgroup

/-! ## Where the known absence comes from

A hard end bars everything from it on. A status end at `M` bars what is past `M`; `M` itself
is barred because the status Object that set the end is recorded, or was announced absent. -/

def SoftEndsAccounted (e : Ledger) : Prop :=
  ∀ id g, e.delivered.lookup id = some g → g.ending.set = true → g.ending.hard = false →
    e.Accounted ⟨id, g.ending.atID⟩

theorem barred_of_knownAbsent (hsoft : e.SoftEndsAccounted) {loc : Location} {r : LocRange}
    (hr : r ∈ e.knownAbsent) (hloc : r.Has loc) : e.Barred loc := by
  have ho := loc.object.toNat_lt
  simp only [knownAbsent, List.mem_append, List.mem_flatMap, List.mem_map] at hr
  rcases hr with ⟨⟨id, g⟩, hmem, hr⟩ | ⟨r', hr', rfl⟩
  · have hg : e.delivered.lookup id = some g := AList.mem_lookup_iff.mpr hmem
    simp only [DeliveredGroup.knownAbsent, List.mem_append, List.mem_map] at hr
    rcases hr with hr | ⟨r', hr', rfl⟩
    · split_ifs at hr with hset
      · rw [List.mem_singleton] at hr
        subst hr
        simp only [LocRange.Has, Location.rank, maxUint64_toNat] at hloc
        have hid : loc.group = id := UInt64.toNat_inj.mp (by omega)
        subst hid
        have hle : g.ending.atID ≤ loc.object := UInt64.le_iff_toNat_le.mpr (by omega)
        by_cases heq : g.ending.atID = loc.object
        · by_cases hhard : g.ending.hard = true
          · exact .inr ⟨g, hg, by simp [End.past, hset, hhard, heq]⟩
          · refine .inl ?_
            have := hsoft _ g hg hset (by simpa using hhard)
            rwa [heq] at this
        · refine .inr ⟨g, hg, ?_⟩
          simp only [End.past, hset, Bool.true_and, Bool.or_eq_true, decide_eq_true_eq]
          exact .inl (by grind)
      · exact absurd hr (by simp)
    · have hhi := r'.hi.toNat_lt
      simp only [LocRange.Has, Location.rank] at hloc
      have hid : loc.group = id := UInt64.toNat_inj.mp (by omega)
      subst hid
      refine .inl (.inr (announcedAbsent_iff.mpr (.inr ⟨g, hg, r', hr', ?_⟩)))
      simp only [IdRange.contains, Bool.and_eq_true, decide_eq_true_eq, UInt64.le_iff_toNat_le]
      omega
  · simp only [LocRange.Has, Location.rank, maxUint64_toNat] at hloc
    refine .inl (.inr (announcedAbsent_iff.mpr (.inl ⟨r', hr', ?_⟩)))
    simp only [IdRange.contains, Bool.and_eq_true, decide_eq_true_eq, UInt64.le_iff_toNat_le]
    constructor
    · omega
    · omega

/-- An end that does not conflict sets a status end only where it says, or leaves the one
    that was there. -/
theorem withEnd_soft {e : End} (hok : e.conflicts atID hard = false) (hpos : hard = true → atID ≠ 0)
    (hsoft : (e.withEnd atID hard).hard = false) :
    hard = false ∧ (e.withEnd atID hard).atID = atID ∨ e.withEnd atID hard = e ∧ e.set = true := by
  unfold End.conflicts at hok
  unfold End.withEnd at hsoft ⊢
  split_ifs at * <;> grind

/-! ## A call keeps the known absence accounted -/

/-- What a call writes: at most one Group's entry, everything else as it was or forgotten. -/
theorem lookup_put {id : UInt64} (h : (e.put group g').delivered.lookup id = some g) :
    id = group ∧ g = g' ∨ e.delivered.lookup id = some g := by
  by_cases hid : id = group
  · subst hid
    simp only [put, AList.lookup_insert, some.injEq] at h
    exact .inl ⟨rfl, h.symm⟩
  · simp only [put, AList.lookup_insert_ne hid] at h
    exact .inr h

theorem lookup_openGroup {id : UInt64} {g₁ : DeliveredGroup} (hopen : e.openGroup group = (e₁, g₁))
    (h : e₁.delivered.lookup id = some g) :
    e.delivered.lookup id = some g ∨ id = group ∧ g = {} := by
  unfold openGroup at hopen
  split at hopen
  · cases hopen
    exact .inl h
  · cases hopen
    by_cases hid : id = group
    · subst hid
      simp only [addDeliveredGroup, AList.lookup_insert, some.injEq] at h
      exact .inr ⟨rfl, h.symm⟩
    · simp only [addDeliveredGroup, AList.lookup_insert_ne hid] at h
      unfold makeRoom at h
      split_ifs at h
      · by_cases hfl : id = e.deliveredFloor
        · subst hfl
          simp [pruneLowest] at h
        · simp only [pruneLowest, AList.lookup_erase_ne hfl] at h
          exact .inl h
      · exact .inl h

@[simp] theorem recordObjectGap_toMarks (g : DeliveredGroup) (object : UInt64) (gaps : PriorGaps) :
    (recordObjectGap g object gaps).toMarks = g.toMarks := by
  unfold recordObjectGap
  split
  · split_ifs <;> rfl
  · rfl

theorem recordGaps_toMarks (h : e.recordGaps g group object gaps = (e', g')) :
    g'.toMarks = g.toMarks := by
  unfold recordGaps at h
  simp only at h
  split_ifs at h
  · split at h <;> cases h <;> simp
  · cases h
    simp

theorem recordGroup_ending (g : DeliveredGroup) (o : ObjectInfo) :
    (recordGroup g o).ending = match groupEnd o with
      | some (atID, hard) => g.ending.withEnd atID hard
      | none => g.ending := by
  have hrec : (g.received o.normal o.object).ending = g.ending := by
    unfold Marks.received
    split_ifs <;> rfl
  unfold recordGroup
  cases groupEnd o with
  | none => exact hrec
  | some p => exact congrArg (fun e : End => e.withEnd p.1 p.2) hrec

theorem groupEnd_pos (h : groupEnd o = some (atID, hard)) : hard = true → atID ≠ 0 := by
  rintro rfl
  unfold groupEnd at h
  split_ifs at h with hstatus hbit
  · cases h
  · cases h
    grind

theorem finEnd_pos (h : finEnd last = some (atID, hard)) : hard = true → atID ≠ 0 := by
  rintro rfl
  unfold finEnd at h
  split_ifs at h with hnormal hmax
  · cases h
    simp only [maxUint64] at hmax
    grind
  · cases h

theorem recordGroup_soft (hchk : ∀ atID hard, groupEnd o = some (atID, hard) →
      checkGroupEnd g.toMarks group atID hard = none) (hset : (recordGroup g o).ending.set = true)
    (hsoft : (recordGroup g o).ending.hard = false) : (recordGroup g o).ending.atID = o.object ∨
      (recordGroup g o).ending = g.ending ∧ g.ending.set = true := by
  rw [recordGroup_ending] at hset hsoft ⊢
  cases hend : groupEnd o with
  | none =>
    rw [hend] at hset
    exact .inr ⟨rfl, hset⟩
  | some p =>
    obtain ⟨atID, hard⟩ := p
    rw [hend] at hsoft
    have hok := hchk atID hard hend
    have hconf : g.ending.conflicts atID hard = false := by
      unfold checkGroupEnd at hok
      split_ifs at hok with h
      simpa using h
    have hat : hard = false → atID = o.object := by
      rintro rfl
      unfold groupEnd at hend
      split_ifs at hend
      · cases hend
        rfl
      · cases hend
    rcases withEnd_soft hconf (groupEnd_pos hend) hsoft with ⟨hh, h⟩ | h
    · exact .inl (h.trans (hat hh))
    · exact .inr h

theorem checkGroupEnd_of_checkEnds (h : e.checkEnds (some g) o = none)
    (hend : groupEnd o = some (atID, hard)) : checkGroupEnd g.toMarks o.group atID hard = none := by
  rw [checkEnds, or_eq_none_iff] at h
  have h := h.2
  simp only [bind_some, checkGroup] at h
  split_ifs at h <;>
    · rw [or_eq_none_iff, hend] at h
      exact h.1

/-- The step rule for `SoftEndsAccounted`: a status end after the step is at an accounted
    Object, or is its Group's from before. -/
theorem SoftEndsAccounted.step (hev : e.Evolves e') (hgaps : e.GapsKept e')
    (hs : e.SoftEndsAccounted)
    (h : ∀ id g', e'.delivered.lookup id = some g' → g'.ending.set = true →
      g'.ending.hard = false → e'.Accounted ⟨id, g'.ending.atID⟩ ∨
        ∃ g, e.delivered.lookup id = some g ∧ g.ending = g'.ending) : e'.SoftEndsAccounted := by
  intro id g' hg' hset hsoft
  rcases h id g' hg' hset hsoft with h | ⟨g, hg, heq⟩
  · exact h
  · rw [← heq] at hset hsoft ⊢
    exact (hs id g hg hset hsoft).stable hev hgaps

theorem accounted_put (h : object ∈ g.objects) : (e.put group g).Accounted ⟨group, object⟩ :=
  .inl (.inr ⟨g, AList.lookup_insert _, h⟩)

theorem softEndsAccounted_claimDelivered {claim : Claim} (hwf : WF e) (hs : e.SoftEndsAccounted)
    (h : ClaimStep e o e' claim err) (hgaps : e.GapsKept e') : e'.SoftEndsAccounted := by
  have hev := (evolves_claimDelivered hwf h).2
  cases h with
  | agedOut | malformed | absent => exact hs
  | @duplicate e₁ e₂ g₁ g₂ hage _ _ hopen hrec _ =>
    obtain ⟨-, -, hlook⟩ := openGroup_spec hwf hage hopen
    obtain ⟨hdel, -⟩ := recordGaps_spec hrec
    refine hs.step hev hgaps fun id g hg hset _ => .inr ?_
    rcases lookup_put hg with ⟨rfl, rfl⟩ | hg
    · rw [recordGaps_toMarks hrec] at hset ⊢
      rcases lookup_openGroup hopen hlook with h | ⟨-, h⟩
      · exact ⟨g₁, h, rfl⟩
      · exact absurd (hset.symm.trans (congrArg (·.ending.set) h)) (by decide)
    · rw [hdel] at hg
      rcases lookup_openGroup hopen hg with h | ⟨-, h⟩
      · exact ⟨g, h, rfl⟩
      · exact absurd (hset.symm.trans (congrArg (·.ending.set) h)) (by decide)
  | @fresh e₁ e₂ g₁ g₂ hage hchk habs hopen hrec hobj =>
    obtain ⟨-, -, hlook⟩ := openGroup_spec hwf hage hopen
    obtain ⟨hdel, -⟩ := recordGaps_spec hrec
    refine hs.step hev hgaps fun id g hg hset hsoft => ?_
    rcases lookup_put hg with ⟨rfl, rfl⟩ | hg
    · -- the claimed Object's Group: its status end is at the Object, or was there
      have hends : ∀ atID hard, groupEnd o = some (atID, hard) →
          checkGroupEnd g₂.toMarks o.group atID hard = none := by
        intro atID hard hend
        rw [recordGaps_toMarks hrec]
        rw [or_eq_none_iff] at hchk
        unfold openGroup at hopen
        split at hopen
        · next g hg =>
          cases hopen
          rw [hg] at hchk
          exact checkGroupEnd_of_checkEnds hchk.2 hend
        · cases hopen
          simp [checkGroupEnd, End.conflicts, Marks.pastEnd]
      rcases recordGroup_soft hends hset hsoft with h | ⟨h, hset'⟩
      · refine .inl ?_
        rw [h]
        exact accounted_put (Finset.mem_insert_self _ _)
      · refine .inr ?_
        rw [recordGaps_toMarks hrec] at h hset'
        rcases lookup_openGroup hopen hlook with h' | ⟨-, h'⟩
        · exact ⟨g₁, h', h.symm⟩
        · exact absurd (hset'.symm.trans (congrArg (·.ending.set) h')) (by decide)
    · rw [recordTrackEnd_delivered, hdel] at hg
      rcases lookup_openGroup hopen hg with h | ⟨-, h⟩
      · exact .inr ⟨g, h, rfl⟩
      · exact absurd (hset.symm.trans (congrArg (·.ending.set) h)) (by decide)

theorem softEndsAccounted_recordDuplicate (hwf : WF e) (hs : e.SoftEndsAccounted)
    (h : DuplicateStep e o e' err) (hgaps : e.GapsKept e') : e'.SoftEndsAccounted := by
  have hev := (evolves_recordDuplicate hwf h).2
  cases h with
  | unheld | unrecorded | malformed => exact hs
  | @record g₀ hg₀ hobj hchk =>
    refine hs.step hev hgaps fun id g hg hset hsoft => ?_
    rcases lookup_put hg with ⟨rfl, rfl⟩ | hg
    · rcases recordGroup_soft (fun _ _ => checkGroupEnd_of_checkEnds hchk) hset hsoft with
        h | ⟨h, -⟩
      · refine .inl ?_
        rw [h]
        exact accounted_put hobj
      · exact .inr ⟨g₀, hg₀, h.symm⟩
    · rw [recordTrackEnd_delivered] at hg
      exact .inr ⟨g, hg, rfl⟩

theorem recordFin_soft {eog : Bool} (hfin : finEnd last = some (atID, hard))
    (hchk : checkFin g last eog atID hard = none)
    (hsoft : (recordFin g last eog atID hard).ending.hard = false) :
    (recordFin g last eog atID hard).ending.atID = last.object ∨
      (recordFin g last eog atID hard).ending = g.ending := by
  cases eog with
  | false => exact .inr rfl
  | true =>
    have hconf : g.ending.conflicts atID hard = false := by
      rw [checkFin, or_eq_none_iff] at hchk
      have hok := hchk.2
      simp only [if_pos, checkGroupEnd] at hok
      split_ifs at hok with h
      simpa using h
    have hat : hard = false → atID = last.object := by
      rintro rfl
      unfold finEnd at hfin
      split_ifs at hfin <;> cases hfin
      rfl
    rcases withEnd_soft hconf (finEnd_pos hfin) hsoft with ⟨hh, h⟩ | ⟨h, -⟩
    · exact .inl (h.trans (hat hh))
    · exact .inr h

theorem softEndsAccounted_subgroupEnded {eog : Bool} (hwf : WF e) (hs : e.SoftEndsAccounted)
    (hlast : e.Accounted last.loc) (h : EndedStep e last eog e' err) (hgaps : e.GapsKept e') :
    e'.SoftEndsAccounted := by
  have hev := (evolves_subgroupEnded hwf h).2
  have hlast' := hlast.stable hev hgaps
  cases h with
  | unheld | endless | malformed => exact hs
  | @record g₀ atID hard hg₀ hfin hchk =>
    refine hs.step hev hgaps fun id g hg hset hsoft => ?_
    rcases lookup_put hg with ⟨rfl, rfl⟩ | hg
    · rcases recordFin_soft hfin hchk hsoft with h | h
      · refine .inl ?_
        rw [h]
        exact hlast'
      · exact .inr ⟨g₀, hg₀, h.symm⟩
    · exact .inr ⟨g, hg, rfl⟩

/-! ## Which calls forget a Group gap -/

def secondLowest (e : Ledger) : UInt64 :=
  (e.delivered.erase e.deliveredFloor).keys.foldl min maxUint64

/-- A claim of `o` gets past `ClaimDelivered`'s checks and finds its Group new. -/
def opensGroup (e : Ledger) (o : ObjectInfo) : Bool :=
  (e.delivered.lookup o.group).isNone && !e.agesOut o.group && (e.checkEnds none o).isNone &&
    !e.announcedAbsent none o.group o.object

/-- The call opens no Group in a full window below a Group gap that ends before the lowest
    Group left: one that ends there is pruned, and must then lie below the new Group too. -/
def KeepsGroupGaps (e : Ledger) : Call → Prop
  | .claimDelivered o => e.opensGroup o = true →
      deliveredGroupWindow ≤ e.delivered.keys.length →
      ∀ r ∈ e.groupGaps, r.hi < e.secondLowest → r.hi < o.group
  | .recordDuplicate _ | .subgroupEnded _ _ => True

instance (e : Ledger) : (c : Call) → Decidable (e.KeepsGroupGaps c)
  | .claimDelivered _ => inferInstanceAs (Decidable (_ → _ → ∀ r ∈ _, _ → _))
  | .recordDuplicate _ | .subgroupEnded _ _ => isTrue trivial

/-- Opening a Group forgets a Group gap only by pruning a full window, which it leaves full. -/
theorem groupGaps_openGroup (hwf : WF e) (hage : e.agesOut group = false)
    (hopen : e.openGroup group = (e₁, g))
    (hkeep : e.delivered.lookup group = none → deliveredGroupWindow ≤ e.delivered.keys.length →
      r.hi < e.secondLowest → r.hi < group) (hr : r ∈ e.groupGaps) : r ∈ e₁.groupGaps ∨
      (deliveredGroupWindow ≤ e₁.delivered.keys.length ∧ r.hi < e₁.deliveredFloor) := by
  unfold openGroup at hopen
  split at hopen
  · cases hopen
    exact .inl hr
  · next hnew =>
    cases hopen
    by_cases hfull : deliveredGroupWindow ≤ e.delivered.keys.length
    · by_cases hlt : r.hi < e.secondLowest
      · have hgroup := hkeep hnew hfull hlt
        obtain ⟨-, -, hlook, hprune⟩ := makeRoom_spec hwf
        have hnew' : e.makeRoom.delivered.lookup group = none := by
          rcases hlook group with h | ⟨h, -⟩
          · exact h.trans hnew
          · have := floor_lt_of_not_agesOut hwf hnew hage hfull
            grind
        refine .inr ⟨?_, ?_⟩
        · rw [length_keys_addDeliveredGroup hnew']
          exact (hprune hfull).1.ge
        · have hfloor : e.makeRoom.deliveredFloor = e.secondLowest := by
            simp [makeRoom, hfull, pruneLowest, secondLowest]
          simp only [addDeliveredGroup, hfloor]
          split_ifs <;> assumption
      · left
        simpa [addDeliveredGroup, makeRoom, hfull, pruneLowest, secondLowest, hr] using hlt
    · left
      simpa [addDeliveredGroup, makeRoom, hfull] using hr

theorem groupGaps_recordGaps (h : e.recordGaps g group object gaps = (e', g')) :
    e.groupGaps ⊆ e'.groupGaps := by
  unfold recordGaps at h
  simp only at h
  split_ifs at h
  · split at h <;> cases h
    · exact List.subset_append_left _ _
    · exact fun _ h => h
  · cases h
    exact fun _ h => h

@[simp] theorem recordTrackEnd_groupGaps (e : Ledger) (o : ObjectInfo) :
    (e.recordTrackEnd o).groupGaps = e.groupGaps := by
  unfold recordTrackEnd
  split_ifs <;> rfl

theorem deliveredFloor_recordGaps (h : e.recordGaps g group object gaps = (e', g')) :
    e'.deliveredFloor = e.deliveredFloor := by
  unfold recordGaps at h
  simp only at h
  split_ifs at h
  · split at h <;> cases h <;> rfl
  · cases h
    rfl

theorem groupGaps_claim {e₂ : Ledger} (hwf : WF e) {g₁ g₂ : DeliveredGroup}
    (hage : e.agesOut o.group = false) (hopen : e.openGroup o.group = (e₁, g₁))
    (hrec : e₁.recordGaps g₁ o.group o.object o.gaps = (e₂, g₂))
    (hkeep : e.delivered.lookup o.group = none →
      deliveredGroupWindow ≤ e.delivered.keys.length → r.hi < e.secondLowest → r.hi < o.group)
    (hr : r ∈ e.groupGaps) (g : DeliveredGroup) : r ∈ (e₂.put o.group g).groupGaps ∨
      (deliveredGroupWindow ≤ (e₂.put o.group g).delivered.keys.length ∧
        r.hi < (e₂.put o.group g).deliveredFloor) := by
  obtain ⟨-, -, hlook⟩ := openGroup_spec hwf hage hopen
  obtain ⟨hdel, -⟩ := recordGaps_spec hrec
  rcases groupGaps_openGroup hwf hage hopen hkeep hr with h | ⟨hlen, hlt⟩
  · exact .inl (groupGaps_recordGaps hrec h)
  · have hmem := mem_keys_of_lookup hlook
    rw [← hdel] at hlen hmem
    refine .inr ⟨(length_keys_insert hmem).ge.trans' hlen, ?_⟩
    exact (deliveredFloor_recordGaps hrec).symm ▸ hlt

theorem opensGroup_of (hage : e.agesOut o.group = false)
    (hchk : (checkGroupGap (e.delivered.lookup o.group) o).or
      (e.checkEnds (e.delivered.lookup o.group) o) = none)
    (habs : e.announcedAbsent (e.delivered.lookup o.group) o.group o.object = false)
    (hnew : e.delivered.lookup o.group = none) : e.opensGroup o = true := by
  rw [hnew] at hchk habs
  rw [or_eq_none_iff] at hchk
  simp [opensGroup, hnew, hage, hchk.2, habs]

/-- **Where a Group gap goes**: a call that keeps the Group gaps forgets one only below the
    floor of a full window. -/
theorem groupGaps_call (hwf : WF e) {c : Call} (hkeep : e.KeepsGroupGaps c) (hr : r ∈ e.groupGaps) :
    r ∈ (e.call c).1.groupGaps ∨
      (deliveredGroupWindow ≤ (e.call c).1.delivered.keys.length ∧
        r.hi < (e.call c).1.deliveredFloor) := by
  cases c with
  | recordDuplicate o =>
    refine .inl ?_
    cases hd : e.recordDuplicate o with
    | mk e' err =>
      simp only [call, hd]
      cases recordDuplicate_step hd with
      | unheld | unrecorded | malformed => exact hr
      | record => simpa [put] using hr
  | subgroupEnded last eog =>
    refine .inl ?_
    cases hd : e.subgroupEnded last eog with
    | mk e' err =>
      simp only [call, hd]
      cases subgroupEnded_step hd <;> exact hr
  | claimDelivered o =>
    obtain ⟨e', claim, err, hd⟩ : ∃ e' claim err, e.claimDelivered o = (e', claim, err) :=
      ⟨_, _, _, rfl⟩
    simp only [call, hd]
    cases claimDelivered_step hd with
    | agedOut | malformed | absent => exact .inl hr
    | duplicate hage hends habs hopen hrec _ =>
      exact groupGaps_claim hwf hage hopen hrec
        (fun hnew hfull => hkeep (opensGroup_of hage hends habs hnew) hfull r hr) hr _
    | @fresh _ _ _ g₂ hage hends habs hopen hrec _ =>
      have h := groupGaps_claim hwf hage hopen hrec
        (fun hnew hfull => hkeep (opensGroup_of hage hends habs hnew) hfull r hr) hr
        { recordGroup g₂ o with objects := insert o.object g₂.objects }
      simpa [put] using h

theorem gapsKept_of_keeps (hwf : WF e) {c : Call} (h : e.KeepsGroupGaps c) :
    e.GapsKept (e.call c).1 := by
  have hwf' := (call_evolves hwf c).1
  intro r hr
  rcases groupGaps_call hwf h hr with hmem | ⟨hlen, hlt⟩
  · exact .inl hmem
  · right
    intro id hid
    refine agesOut_iff.mpr ⟨fun hk => ?_, hlen, by grind⟩
    have := hwf'.floor_le id hk
    grind

end Ledger

/-! ## Runs of calls -/

/-- A new entry and the calls made on it. `claimed` is where `ClaimDelivered` returned without
    an error: a stream's FIN is reported after its last Object was claimed. -/
structure Calls (S : Type) where
  entry : TrackEntry S
  claimed : List Location := []

namespace Calls

variable {S : Type} {t t' : Calls S} {a : Nat × Ledger.Call}

/-- One call, at time `now`. -/
def step (t : Calls S) : Nat × Ledger.Call → Option (Calls S)
  | (now, c) =>
    let (entry, reply) := t.entry.call now c
    match c with
    | .claimDelivered o =>
      some ⟨entry, if reply.err = none then o.loc :: t.claimed else t.claimed⟩
    | .recordDuplicate _ => some ⟨entry, t.claimed⟩
    | .subgroupEnded last _ => if last.loc ∈ t.claimed then some ⟨entry, t.claimed⟩ else none

/-- The calls of a run that forget no Group gap but below the window. -/
def KeepsGroupGaps (t : Calls S) (a : Nat × Ledger.Call) : Prop := t.entry.ledger.KeepsGroupGaps a.2

instance (t : Calls S) (a : Nat × Ledger.Call) : Decidable (t.KeepsGroupGaps a) :=
  inferInstanceAs (Decidable (t.entry.ledger.KeepsGroupGaps a.2))

structure Inv (t : Calls S) : Prop where
  wf : t.entry.ledger.WF
  claimed : ∀ loc ∈ t.claimed, t.entry.ledger.Accounted loc
  soft : t.entry.ledger.SoftEndsAccounted

theorem Inv.new (cache : ObjectCache) : Inv ({ entry := { cache := cache } } : Calls S) := by
  refine ⟨.new, fun loc h => absurd h (by simp), fun id g h => ?_⟩
  exact absurd h (by simp)

theorem step_ledger (h : t.step a = some t') : t'.entry.ledger = (t.entry.ledger.call a.2).1 := by
  obtain ⟨now, c⟩ := a
  cases c with
  | claimDelivered | recordDuplicate =>
    simp only [step, some.injEq] at h
    rw [← h]
    rfl
  | subgroupEnded =>
    simp only [step] at h
    split_ifs at h
    rw [some.injEq] at h
    rw [← h]
    rfl

theorem accounted_of_claim {e e' : Ledger} {o : ObjectInfo} {claim : Claim}
    (h : e.ClaimStep o e' claim none) : e'.Accounted o.loc := by
  cases h with
  | agedOut hage => exact .inl (.inl hage)
  | absent _ habs => exact .inr habs
  | duplicate _ _ _ _ _ hobj => exact Ledger.accounted_put hobj
  | fresh => exact Ledger.accounted_put (Finset.mem_insert_self _ _)

theorem Inv.step (hi : Inv t) (hkeep : t.KeepsGroupGaps a) (h : t.step a = some t') : Inv t' := by
  have hled := step_ledger h
  obtain ⟨now, c⟩ := a
  obtain ⟨hwf', hev⟩ := Ledger.call_evolves hi.wf c
  have hgaps := Ledger.gapsKept_of_keeps hi.wf hkeep
  have hold : ∀ loc ∈ t.claimed, t'.entry.ledger.Accounted loc :=
    fun loc hloc => hled ▸ (hi.claimed loc hloc).stable hev hgaps
  refine ⟨hled ▸ hwf', ?_, ?_⟩
  · cases c with
    | recordDuplicate =>
      cases h
      exact hold
    | subgroupEnded =>
      simp only [Calls.step] at h
      split_ifs at h
      cases h
      exact hold
    | claimDelivered o =>
      simp only [Calls.step] at h
      cases h
      intro loc hloc
      split_ifs at hloc with herr
      · rcases List.mem_cons.mp hloc with rfl | hloc
        · have hok : (t.entry.ledger.claimDelivered o).2.2 = none := herr
          exact accounted_of_claim
            (Ledger.claimDelivered_step (Prod.ext rfl (Prod.ext rfl hok)))
        · exact hold loc hloc
      · exact hold loc hloc
  · rw [hled]
    cases c with
    | claimDelivered o =>
      exact Ledger.softEndsAccounted_claimDelivered hi.wf hi.soft
        (Ledger.claimDelivered_step rfl) hgaps
    | recordDuplicate o =>
      exact Ledger.softEndsAccounted_recordDuplicate hi.wf hi.soft
        (Ledger.recordDuplicate_step rfl) hgaps
    | subgroupEnded last eog =>
      have hlast : last.loc ∈ t.claimed := by
        simp only [Calls.step] at h
        split_ifs at h with hmem
        exact hmem
      exact Ledger.softEndsAccounted_subgroupEnded hi.wf hi.soft (hi.claimed _ hlast)
        (Ledger.subgroupEnded_step rfl) hgaps

theorem barred_step {loc : Location} (hi : Inv t) (hkeep : t.KeepsGroupGaps a)
    (h : t.step a = some t') (hb : t.entry.ledger.Barred loc) : t'.entry.ledger.Barred loc := by
  rw [step_ledger h]
  exact hb.stable (Ledger.call_evolves hi.wf a.2).2 (Ledger.gapsKept_of_keeps hi.wf hkeep)

/-- **Known absence is permanent while no Group gap is forgotten above the window's floor**: in
    every run of calls on a new entry that keep the Group gaps, a Normal Object at a Location
    `KnownAbsent` reported at some point is never claimed fresh afterwards. -/
theorem knownAbsent_permanent (cache : ObjectCache) {before after : List (Nat × Ledger.Call)}
    {t t' : Calls S} (hbefore : Lib.run step { entry := { cache := cache } } before = some t)
    (hafter : Lib.run step t after = some t')
    (hkeeps : Lib.Along step KeepsGroupGaps ({ entry := { cache := cache } } : Calls S)
      (before ++ after))
    {o : ObjectInfo} (hn : o.normal = true)
    (habs : ∃ r ∈ t.entry.ledger.knownAbsent, r.Has o.loc) :
    (t'.entry.ledger.claimDelivered o).2.1 ≠ .fresh := by
  obtain ⟨hk₁, hk₂⟩ := Lib.along_append hbefore hkeeps
  have hi : Inv t := Lib.run_inv_along (fun _ _ _ hi hk h => hi.step hk h) (.new cache) hk₁ hbefore
  obtain ⟨r, hr, hloc⟩ := habs
  have hb := Ledger.barred_of_knownAbsent hi.soft hr hloc
  have hend : Inv t' ∧ t'.entry.ledger.Barred o.loc :=
    Lib.run_inv_along (fun _ _ _ hi hk h => And.intro (hi.1.step hk h) (barred_step hi.1 hk h hi.2))
      ⟨hi, hb⟩ hk₂ hafter
  exact hend.2.not_fresh hn

/-- Group 3 announces Group 2 absent; it stays so when Group 5 arrives. -/
theorem knownAbsent_permanent_gap :
    ∃ t t' : Calls Unit,
      Lib.run step { entry := { cache := .new 1 0 } }
        [(0, .claimDelivered { group := 3, object := 0, gaps := { group := 1, hasGroup := true } })]
        = some t ∧
      Lib.run step t [(1, .claimDelivered { group := 5, object := 0 })] = some t' ∧
      (∃ r ∈ t.entry.ledger.knownAbsent, r.Has ⟨2, 0⟩) ∧
      (t'.entry.ledger.claimDelivered { group := 2, object := 0 }).2.1 ≠ .fresh := by
  refine ⟨_, _, rfl, rfl, by decide, ?_⟩
  exact @knownAbsent_permanent Unit (.new 1 0)
    [(0, .claimDelivered { group := 3, object := 0, gaps := { group := 1, hasGroup := true } })]
    [(1, .claimDelivered { group := 5, object := 0 })] _ _ rfl rfl (by decide) _ rfl (by decide)

/-- Thirty-two Groups: 0, and 3 to 33. Group 3 announces Group 2 absent. -/
def gapAboveFloor : List (Nat × Ledger.Call) :=
  (0, .claimDelivered { group := 0, object := 0 }) ::
    (0, .claimDelivered { group := 3, object := 0, gaps := { group := 1, hasGroup := true } }) ::
    (List.range 30).map fun i =>
      (0, .claimDelivered { group := 4 + UInt64.ofNat i, object := 0 })

/-- Absence is forgotten: with the window full, Group 1 prunes Group 0, and with it the gap
    below Group 3, the lowest Group left. The window then reaches down to Group 1, and an
    Object of Group 2, known absent before, is claimed fresh. -/
theorem groupGap_forgotten :
    ∃ t t' : Calls Unit,
      Lib.run step { entry := { cache := .new 1 0 } } gapAboveFloor = some t ∧
      Lib.run step t [(0, .claimDelivered { group := 1, object := 0 })] = some t' ∧
      (∃ r ∈ t.entry.ledger.knownAbsent, r.Has ⟨2, 0⟩) ∧
      (t'.entry.ledger.claimDelivered { group := 2, object := 0 }).2.1 = .fresh := by
  refine ⟨_, _, rfl, rfl, ?_, ?_⟩ <;> decide +kernel

end Calls
end MoqGo.Relay
