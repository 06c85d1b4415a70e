import MoqGo.Relay.CacheRing
import MoqGo.Relay.Ledger.Absent

/-!
# What a malformed track costs (`pkg/relay/internal/registry/track_entry.go`)

`ClaimDelivered`, `RecordDuplicate` and `SubgroupEnded` report the §12.1 conditions as errors. An
error leaves the ledger as it was. Where two ends conflict, or an end is below an Object received,
the Objects past the lower end are also removed from the cache: of the Subgroup, of the Group, or
of the Track (`offense`).

For a Subgroup and a Group the cache itself is searched. For the Track `purgeTrackPastLocked`
walks **the ledger's window**, and its maxima decide whether the Group of the END_OF_TRACK itself
is searched; that it misses nothing rests on what is cached having been claimed before. A claimed
Object's Group is in the window, with the Object below its maxima, or it has aged out, below every
Group an END_OF_TRACK can still be in (`Caching.Inv`).

An entry that has expired is not found and stays in its slot, where no reader finds it either.
-/

namespace MoqGo.Relay

open Message List Bool

/-! ## The cache, entry by entry -/

namespace ObjectCache

variable {c c' c'' : ObjectCache} {loc k : Location} {o : CachedObject} {now : Nat}

/-- What is stored at a Location, expired or not. -/
def entryAt (c : ObjectCache) (loc : Location) : Option CachedObject :=
  (c.index.lookup loc).bind fun i => (c.ring[i]?).join

theorem Indexed.entryAt_iff (h : c.Indexed) :
    c.entryAt loc = some o ↔ some o ∈ c.ring ∧ o.loc = loc := by
  unfold entryAt
  rw [Option.bind_eq_some_iff]
  constructor
  · rintro ⟨i, hi, hslot⟩
    rw [Option.join_eq_some_iff] at hslot
    obtain ⟨o', ho', hloc⟩ := (h.lookup loc i).mp hi
    obtain rfl : o' = o := by simpa using ho'.symm.trans hslot
    exact ⟨mem_of_getElem? hslot, hloc⟩
  · rintro ⟨hmem, hloc⟩
    obtain ⟨i, hi⟩ := List.getElem?_of_mem hmem
    exact ⟨i, (h.lookup loc i).mpr ⟨o, hi, hloc⟩, Option.join_eq_some_iff.mpr hi⟩

theorem Indexed.entryAt_delete (h : c.Indexed) :
    (c.delete k).entryAt loc = if loc = k then none else c.entryAt loc := by
  unfold ObjectCache.delete
  cases hk : c.index.lookup k with
  | none =>
    split_ifs with heq
    · rw [heq, entryAt, hk]
      rfl
    · rfl
  | some idx =>
    split_ifs with heq
    · rw [heq, entryAt, AList.lookup_erase]
      rfl
    · simp only [entryAt, AList.lookup_erase_ne heq]
      cases hloc : c.index.lookup loc with
      | none => rfl
      | some i =>
        have hne : idx ≠ i := fun hi => heq (h.loc_of_lookup hloc (hi ▸ hk))
        simp only [Option.bind_some, List.getElem?_set_ne hne]

/-- The cache `c'` is `c` without the entries that have not expired and are `bad`. -/
structure Removes (now : Nat) (bad : CachedObject → Bool) (c c' : ObjectCache) : Prop where
  indexed : c'.Indexed
  maxAge : c'.maxAge = c.maxAge
  entries : ∀ loc, c'.entryAt loc = (c.entryAt loc).filter fun o => !(c.notExpired now o && bad o)

namespace Removes

variable {bad bad' : CachedObject → Bool}

theorem none (h : c.Indexed) : Removes now (fun _ => false) c c := by
  refine ⟨h, rfl, fun loc => ?_⟩
  simp only [Bool.and_false, Bool.not_false]
  cases c.entryAt loc <;> rfl

theorem trans (h : Removes now bad c c') (h' : Removes now bad' c' c'') :
    Removes now (fun o => bad o || bad' o) c c'' := by
  have hexpired : ∀ o, c'.notExpired now o = c.notExpired now o := by
    intro o
    simp only [notExpired, h.maxAge]
  refine ⟨h'.indexed, h'.maxAge.trans h.maxAge, fun loc => ?_⟩
  rw [h'.entries, h.entries, Option.filter_filter]
  congr 1
  funext o
  rw [hexpired]
  cases c.notExpired now o <;> cases bad o <;> cases bad' o <;> rfl

theorem congr (h : Removes now bad c c')
    (hbad : ∀ loc o, c.entryAt loc = some o → bad o = bad' o) : Removes now bad' c c' := by
  refine ⟨h.indexed, h.maxAge, fun loc => ?_⟩
  rw [h.entries]
  cases hentry : c.entryAt loc with
  | none => rfl
  | some o => simp only [Option.filter_some, hbad loc o hentry]

theorem subset (h : Removes now bad c c') (hentry : c'.entryAt loc = some o) :
    c.entryAt loc = some o := by
  rw [h.entries] at hentry
  exact (Option.filter_eq_some_iff.mp hentry).1

end Removes

theorem Indexed.deleteAll (h : c.Indexed) (locs : List Location) :
    (locs.foldl ObjectCache.delete c).Indexed ∧
      (locs.foldl ObjectCache.delete c).maxAge = c.maxAge ∧
      ∀ loc, (locs.foldl ObjectCache.delete c).entryAt loc =
        if loc ∈ locs then none else c.entryAt loc := by
  induction locs generalizing c with
  | nil => exact ⟨h, rfl, fun loc => rfl⟩
  | cons k locs ih =>
    obtain ⟨hindexed, hage, hentries⟩ := ih (h.delete k)
    have hmaxAge : (c.delete k).maxAge = c.maxAge := by
      unfold ObjectCache.delete
      split <;> rfl
    refine ⟨hindexed, hage.trans hmaxAge, fun loc => ?_⟩
    rw [foldl_cons, hentries, h.entryAt_delete]
    by_cases hk : loc = k
    · simp [hk]
    · simp [hk]

theorem rank_group_iff {group lo : UInt64} {l : Location} :
    ((⟨group, lo⟩ : Location).rank ≤ l.rank ∧ l.rank ≤ (⟨group, maxUint64⟩ : Location).rank) ↔
      l.group = group ∧ lo ≤ l.object := by
  have hobject := l.object.toNat_lt
  have hmax : maxUint64.toNat = 18446744073709551615 := rfl
  simp only [Location.rank, hmax, UInt64.le_iff_toNat_le, ← UInt64.toNat_inj]
  omega

theorem Indexed.removes_search (h : c.Indexed) (now : Nat) (group lo : UInt64)
    (p : CachedObject → Bool) :
    Removes now (fun o => o.groupID == group && decide (lo ≤ o.objectID) && p o) c
      (((c.getRange now ⟨group, lo⟩ ⟨group, maxUint64⟩ .ascending).filter p).foldl
        (fun c o => c.delete ⟨group, o.objectID⟩) c) := by
  rw [← foldl_map (f := fun o : CachedObject => (⟨group, o.objectID⟩ : Location))
    (g := ObjectCache.delete)]
  obtain ⟨hindexed, hage, hentries⟩ := h.deleteAll _
  refine ⟨hindexed, hage, fun loc => ?_⟩
  rw [hentries]
  cases hentry : c.entryAt loc with
  | none => split_ifs <;> rfl
  | some o =>
    obtain ⟨hmem, hloc⟩ := h.entryAt_iff.mp hentry
    have hfound : loc ∈ ((c.getRange now ⟨group, lo⟩ ⟨group, maxUint64⟩ .ascending).filter p).map
        (fun o : CachedObject => (⟨group, o.objectID⟩ : Location)) ↔
        c.notExpired now o = true ∧ (o.groupID = group ∧ lo ≤ o.objectID) ∧ p o = true := by
      simp only [mem_map, mem_filter, mem_getRange]
      constructor
      · rintro ⟨o', ⟨⟨hmem', hlow, hhigh, hlive⟩, hp⟩, heq⟩
        have hgroup := rank_group_iff.mp ⟨hlow, hhigh⟩
        have hloc' : o'.loc = loc := by
          rw [← heq, ← hgroup.1]
          rfl
        have hsame := h.entryAt_iff.mpr ⟨hmem', hloc'⟩
        cases (hentry.symm.trans hsame)
        exact ⟨hlive, hgroup, hp⟩
      · rintro ⟨hlive, hgroup, hp⟩
        obtain ⟨hlow, hhigh⟩ := rank_group_iff (l := o.loc).mpr hgroup
        refine ⟨o, ⟨⟨hmem, hlow, hhigh, hlive⟩, hp⟩, ?_⟩
        rw [← hloc, ← hgroup.1]
        rfl
    rw [Option.filter_some, if_congr hfound rfl rfl]
    by_cases hbad : c.notExpired now o = true ∧ (o.groupID = group ∧ lo ≤ o.objectID) ∧ p o = true
    · simp [hbad]
    · rw [if_neg hbad, if_pos]
      rw [not_eq_true', eq_false_iff]
      simpa only [ne_eq, and_eq_true, beq_iff_eq, decide_eq_true_eq] using hbad

end ObjectCache

/-! ## What an error is about -/

namespace End

/-- The lower of two ends, of those that are set. -/
def meet (a b : End) : End :=
  if !a.set then b
  else if !b.set then a
  else if a.atID == b.atID then ⟨a.atID, true, a.hard || b.hard⟩
  else a.lower b

theorem lower_eq_meet {e : End} {atID : UInt64} {hard : Bool} (h : e.conflicts atID hard = true) :
    e.lower ⟨atID, true, hard⟩ = e.meet ⟨atID, true, hard⟩ := by
  unfold conflicts at h
  unfold meet
  split_ifs at * <;> simp_all

theorem withEnd_eq_meet {e : End} {atID : UInt64} {hard : Bool}
    (h : e.conflicts atID hard = false) (hpos : hard = true → atID ≠ 0) :
    e.withEnd atID hard = e.meet ⟨atID, true, hard⟩ := by
  unfold conflicts at h
  unfold withEnd meet lower
  split_ifs at * <;> grind

end End

namespace Ledger

def groupEndAt (l : Ledger) (group : UInt64) : End :=
  (l.delivered.lookup group).elim {} (·.ending)

def subgroupEndAt (l : Ledger) (group subgroup : UInt64) : End :=
  ((l.delivered.lookup group).bind (·.subgroups.lookup subgroup)).elim {} (·.ending)

def Call.ends : Call → End
  | .claimDelivered o | .recordDuplicate o => (groupEnd o).elim {} fun p => ⟨p.1, true, p.2⟩
  | .subgroupEnded last _ => (finEnd last).elim {} fun p => ⟨p.1, true, p.2⟩

/-- **What an error is about**: the Objects past the lower of the two ends, in the Subgroup or the
    Group that is named, or past the lower END_OF_TRACK. The other errors are about the Object that
    comes with the call, which is not cached. -/
def offense (l : Ledger) (c : Call) : MalformedTrack → Option Purge
  | .subgroupEnds subgroup group _ _ | .subgroupEndBelow subgroup group _ =>
    some (.past group (some subgroup) ((l.subgroupEndAt group subgroup).meet c.ends))
  | .groupEnds group _ _ | .groupEndBelow group _ =>
    some (.past group none ((l.groupEndAt group).meet c.ends))
  | .trackEnds object group trackEnd =>
    some (.trackPast (if trackEnd.less ⟨group, object⟩ then trackEnd else ⟨group, object⟩))
  | .trackEndBelow object group => some (.trackPast ⟨group, object⟩)
  | _ => none

end Ledger

/-- The Object is one that is to be removed. -/
def Purge.offends (o : CachedObject) : Purge → Bool
  | .past group subgroup ended =>
    o.groupID == group && ended.past o.objectID (o.status == objectStatusNormal) &&
      subgroup.all fun sg => o.forwardingPref == .subgroup && o.subgroupID == sg
  | .trackPast loc => loc.less o.loc

namespace Ledger

/-! ### Each error names its offense -/

section Errors

variable {l : Ledger} {g : DeliveredGroup} {o : ObjectInfo} {err : Malformed} {c : Call}
  {atID : UInt64} {hard : Bool}

theorem purge_checkGroupEnd {group : UInt64} (hg : l.delivered.lookup group = some g)
    (hends : c.ends = ⟨atID, true, hard⟩) (hpos : hard = true → atID ≠ 0)
    (h : checkGroupEnd g.toMarks group atID hard = some err) :
    err.purge = l.offense c err.err := by
  have hat : l.groupEndAt group = g.ending := by
    rw [groupEndAt, hg]
    rfl
  unfold checkGroupEnd at h
  split_ifs at h with hconf hpast
  · cases h
    simp only [offense, hat, hends, End.lower_eq_meet hconf]
  · cases h
    simp only [offense, hat, hends, End.withEnd_eq_meet (eq_false_iff.mpr hconf) hpos]

theorem purge_checkSubgroupEnd {sg : SubgroupLedger} {group subgroup : UInt64}
    (hsg : l.subgroupEndAt group subgroup = sg.ending)
    (hends : c.ends = ⟨atID, true, hard⟩) (hpos : hard = true → atID ≠ 0)
    (h : checkSubgroupEnd sg group subgroup atID hard = some err) :
    err.purge = l.offense c err.err := by
  unfold checkSubgroupEnd at h
  split_ifs at h with hconf hpast
  · cases h
    simp only [offense, hsg, hends, End.lower_eq_meet hconf]
  · cases h
    simp only [offense, hsg, hends, End.withEnd_eq_meet (eq_false_iff.mpr hconf) hpos]

theorem purge_checkTrackEnd (h : l.checkTrackEnd o = some err) :
    err.purge = l.offense c err.err := by
  unfold checkTrackEnd at h
  split_ifs at h with hpast _ hends
  · cases h
    rfl
  · -- an Object past the track's end was refused before, so the new end is the lower
    cases h
    have hlow : ¬ l.trackEnd.less o.loc = true := fun hless =>
      hpast (by rw [(and_eq_true_iff.mp hends).1, hless]; rfl)
    exact congrArg (some ∘ Purge.trackPast) (if_neg hlow).symm
  · cases h
    rfl

theorem purge_checkSubgroup (h : checkSubgroup g o = some err) :
    err.purge = l.offense c err.err := by
  unfold checkSubgroup at h
  split at h
  · cases h
  · split_ifs at h
    all_goals
      cases h
      rfl

theorem purge_checkEnds (hends : c.ends = (groupEnd o).elim {} fun p => ⟨p.1, true, p.2⟩)
    (h : l.checkEnds (l.delivered.lookup o.group) o = some err) :
    err.purge = l.offense c err.err := by
  rw [checkEnds, Option.or_eq_some_iff] at h
  rcases h with h | ⟨-, h⟩
  · exact purge_checkTrackEnd h
  · obtain ⟨g, hg, h⟩ := Option.bind_eq_some_iff.mp h
    unfold checkGroup at h
    split_ifs at h with hpast hdatagram
    · cases h
      rfl
    all_goals
      rw [Option.or_eq_some_iff] at h
      rcases h with h | ⟨-, h⟩
    · obtain ⟨⟨atID, hard⟩, hend, h⟩ := Option.bind_eq_some_iff.mp h
      refine purge_checkGroupEnd hg ?_ (groupEnd_pos hend) h
      rw [hends, hend]
      rfl
    · cases h
    · obtain ⟨⟨atID, hard⟩, hend, h⟩ := Option.bind_eq_some_iff.mp h
      refine purge_checkGroupEnd hg ?_ (groupEnd_pos hend) h
      rw [hends, hend]
      rfl
    · exact purge_checkSubgroup h

theorem trackPast_checkEnds {g : Option DeliveredGroup} {loc : Location}
    (h : l.checkEnds g o = some err) (hpurge : err.purge = some (.trackPast loc)) :
    loc = o.loc := by
  rw [checkEnds, Option.or_eq_some_iff] at h
  rcases h with h | ⟨-, h⟩
  · unfold checkTrackEnd at h
    grind
  · obtain ⟨g, -, h⟩ := Option.bind_eq_some_iff.mp h
    unfold checkGroup checkGroupEnd checkSubgroup at h
    cases hend : groupEnd o with
    | none =>
      grind
    | some ended =>
      grind

/-- **What a call removes is its error's offense, and it leaves the ledger as it was.** An
    END_OF_TRACK that Objects are past has not aged out. -/
theorem call_err (h : (l.call c).2.err = some err) :
    (l.call c).1 = l ∧ err.purge = l.offense c err.err ∧
      ∀ loc, err.purge = some (.trackPast loc) → l.agesOut loc.group = false := by
  cases c with
  | claimDelivered o =>
    obtain ⟨l', claim, err', hcall⟩ : ∃ l' claim err', l.claimDelivered o = (l', claim, err') :=
      ⟨_, _, _, rfl⟩
    simp only [call, hcall] at h ⊢
    subst h
    cases claimDelivered_step hcall with
    | malformed hage hchk =>
      refine ⟨rfl, ?_⟩
      rw [Option.or_eq_some_iff] at hchk
      rcases hchk with hgap | ⟨-, hends⟩
      · unfold checkGroupGap at hgap
        split at hgap
        · split_ifs at hgap
          cases hgap
          refine ⟨rfl, fun loc hpurge => ?_⟩
          cases hpurge
        · cases hgap
      · exact ⟨purge_checkEnds rfl hends, fun loc hpurge => trackPast_checkEnds hends hpurge ▸ hage⟩
  | recordDuplicate o =>
    obtain ⟨l', err', hcall⟩ : ∃ l' err', l.recordDuplicate o = (l', err') := ⟨_, _, rfl⟩
    simp only [call, hcall] at h ⊢
    subst h
    cases recordDuplicate_step hcall with
    | malformed hg hobj hchk =>
      refine ⟨rfl, purge_checkEnds rfl (hg ▸ hchk), fun loc hpurge => ?_⟩
      rw [trackPast_checkEnds hchk hpurge]
      simp [agesOut, ObjectInfo.loc, hg]
  | subgroupEnded last eog =>
    obtain ⟨l', err', hcall⟩ : ∃ l' err', l.subgroupEnded last eog = (l', err') := ⟨_, _, rfl⟩
    simp only [call, hcall] at h ⊢
    subst h
    cases subgroupEnded_step hcall with
    | @malformed g atID hard err hg hfin hchk =>
      refine ⟨rfl, ?_, fun loc hpurge => ?_⟩
      · have hends : (Call.subgroupEnded last eog).ends = ⟨atID, true, hard⟩ := by
          rw [Call.ends, hfin]
          rfl
        rw [checkFin, Option.or_eq_some_iff] at hchk
        rcases hchk with hchk | ⟨-, hchk⟩
        · refine purge_checkSubgroupEnd ?_ hends (finEnd_pos hfin) hchk
          rw [subgroupEndAt, hg, Option.bind_some]
          cases g.subgroups.lookup last.subgroup <;> rfl
        · split_ifs at hchk
          exact purge_checkGroupEnd hg hends (finEnd_pos hfin) hchk
      · unfold checkFin checkSubgroupEnd checkGroupEnd at hchk
        grind

end Errors

/-! ### The maxima -/

end Ledger

def Marks.Bounds (m : Marks) (id : UInt64) : Prop :=
  m.hasNormal = true ∧ id ≤ m.maxNormal ∨ m.hasStatus = true ∧ id ≤ m.maxStatus

namespace Marks.Bounds

variable {m : Marks} {id id' : UInt64} {normal : Bool}

theorem received (h : m.Bounds id) : (m.received normal id').Bounds id := by
  unfold Marks.Bounds Marks.received at *
  split_ifs <;> grind

theorem self (m : Marks) (normal : Bool) (id : UInt64) : (m.received normal id).Bounds id := by
  unfold Marks.Bounds Marks.received
  split_ifs <;> grind

theorem pastEnd (h : m.Bounds id) {atID : UInt64} (hlt : atID < id) :
    m.pastEnd ⟨atID, true, false⟩ = true := by
  unfold Marks.Bounds at h
  unfold Marks.pastEnd End.past
  grind

end Marks.Bounds

namespace Ledger

def Bounded (l : Ledger) : Prop :=
  ∀ group g, l.delivered.lookup group = some g → ∀ id ∈ g.objects, g.toMarks.Bounds id

variable {o : ObjectInfo} {l l' : Ledger} {err : Option Malformed}

theorem recordGroup_bounds {g : DeliveredGroup} {id : UInt64}
    (h : g.toMarks.Bounds id ∨ id = o.object) : (recordGroup g o).toMarks.Bounds id := by
  have hreceived : (g.received o.normal o.object).Bounds id := by
    rcases h with h | rfl
    · exact h.received
    · exact .self _ _ _
  unfold recordGroup
  split <;> exact hreceived

theorem Bounded.put {group : UInt64} {g : DeliveredGroup} (h : l.Bounded)
    (hg : ∀ id ∈ g.objects, g.toMarks.Bounds id) : (l.put group g).Bounded := by
  intro id g' hlookup
  rcases lookup_put hlookup with ⟨rfl, rfl⟩ | hold
  · exact hg
  · exact h id g' hold

theorem Bounded.opened {l₁ l₂ : Ledger} {g₁ g₂ : DeliveredGroup} (hwf : WF l) (h : l.Bounded)
    (hage : l.agesOut o.group = false) (hopen : l.openGroup o.group = (l₁, g₁))
    (hgaps : l₁.recordGaps g₁ o.group o.object o.gaps = (l₂, g₂)) :
    l₂.Bounded ∧ ∀ id ∈ g₂.objects, g₂.toMarks.Bounds id := by
  obtain ⟨-, -, hlook⟩ := openGroup_spec hwf hage hopen
  obtain ⟨hdel, -, -, hobjects⟩ := recordGaps_spec hgaps
  have h₁ : l₁.Bounded := by
    intro group g hg
    rcases lookup_openGroup hopen hg with hold | ⟨-, rfl⟩
    · exact h group g hold
    · exact fun id hid => absurd hid (Finset.notMem_empty id)
  constructor
  · intro group g hg
    rw [hdel] at hg
    exact h₁ group g hg
  · rw [hobjects, recordGaps_toMarks hgaps]
    exact h₁ _ g₁ hlook

theorem Bounded.trackEnd (h : l.Bounded) (o : ObjectInfo) : (l.recordTrackEnd o).Bounded := by
  intro group g hg
  rw [recordTrackEnd_delivered] at hg
  exact h group g hg

theorem Bounded.claimDelivered {claim : Claim} (hwf : WF l) (h : l.Bounded)
    (hstep : ClaimStep l o l' claim err) : l'.Bounded := by
  cases hstep with
  | agedOut | malformed | absent => exact h
  | duplicate hage _ _ hopen hgaps _ =>
    obtain ⟨h₂, hg₂⟩ := h.opened hwf hage hopen hgaps
    exact h₂.put hg₂
  | fresh hage _ _ hopen hgaps _ =>
    obtain ⟨h₂, hg₂⟩ := h.opened hwf hage hopen hgaps
    refine (h₂.trackEnd o).put fun id hid => recordGroup_bounds ?_
    rcases Finset.mem_insert.mp hid with rfl | hid
    · exact .inr rfl
    · exact .inl (hg₂ id hid)

theorem Bounded.recordDuplicate (h : l.Bounded) (hstep : DuplicateStep l o l' err) :
    l'.Bounded := by
  cases hstep with
  | unheld | unrecorded | malformed => exact h
  | record hg _ _ =>
    exact (h.trackEnd o).put fun id hid => recordGroup_bounds (.inl (h _ _ hg id hid))

theorem Bounded.subgroupEnded {last : ObjectInfo} {eog : Bool} (h : l.Bounded)
    (hstep : EndedStep l last eog l' err) : l'.Bounded := by
  cases hstep with
  | unheld | endless | malformed => exact h
  -- a FIN moves ends, not maxima
  | record hg _ _ => exact h.put fun id hid => h _ _ hg id hid

theorem Bounded.call (hwf : WF l) (h : l.Bounded) (c : Call) : (l.call c).1.Bounded := by
  cases c with
  | claimDelivered o => exact h.claimDelivered hwf (claimDelivered_step rfl)
  | recordDuplicate o => exact h.recordDuplicate (recordDuplicate_step rfl)
  | subgroupEnded last eog => exact h.subgroupEnded (subgroupEnded_step rfl)

/-! ### The END_OF_TRACK is in the window, or above it -/

theorem lt_of_agesOut (hwf : WF l) {a b : UInt64} (ha : l.agesOut a = true)
    (hb : l.agesOut b = false) : a < b := by
  obtain ⟨-, hfull, hlt⟩ := agesOut_iff.mp ha
  have hle : l.deliveredFloor ≤ b := by
    by_cases hheld : b ∈ l.delivered.keys
    · exact hwf.floor_le b hheld
    · by_contra hlow
      have : l.agesOut b = true := agesOut_iff.mpr ⟨hheld, hfull, by grind⟩
      rw [this] at hb
      cases hb
  grind

/-- What a purge removes: of the Track, the Groups of the window above the END_OF_TRACK's, and
    that Group's Objects past it if its maxima are. -/
def sweeps (l : Ledger) (o : CachedObject) : Purge → Bool
  | .past group subgroup ended => Purge.offends o (.past group subgroup ended)
  | .trackPast loc => l.delivered.entries.any fun ⟨id, g⟩ =>
    o.groupID == id && (decide (loc.group < id) ||
      (id == loc.group && g.pastEnd ⟨loc.object, true, false⟩ && decide (loc.object < o.objectID)))

/-- **The walk over the window misses nothing past the END_OF_TRACK** that was claimed. -/
theorem sweeps_eq_offends {c : Call} {err : Malformed} {p : Purge} {o : CachedObject} (hwf : WF l)
    (hbounded : l.Bounded) (h : (l.call c).2.err = some err) (hpurge : err.purge = some p)
    (hsettled : l.Settled o.loc) : l.sweeps o p = Purge.offends o p := by
  cases p with
  | past => rfl
  | trackPast loc =>
    rw [Bool.eq_iff_iff]
    simp only [sweeps, Purge.offends, any_eq_true, Location.less_lex, CachedObject.loc,
      and_eq_true, or_eq_true, beq_iff_eq, decide_eq_true_eq]
    constructor
    · rintro ⟨⟨id, g⟩, -, rfl, hpast⟩
      grind
    · intro hless
      rcases hsettled with hage | ⟨g, hg, hobject⟩
      · have hlt := lt_of_agesOut hwf hage ((call_err h).2.2 loc hpurge)
        simp only [CachedObject.loc] at hlt
        grind
      · refine ⟨⟨o.groupID, g⟩, AList.mem_lookup_iff.mp hg, rfl, ?_⟩
        by_cases hgroup : loc.group < o.groupID
        · exact .inl hgroup
        · have hobj : loc.object < o.objectID := by grind
          exact .inr ⟨⟨by grind, (hbounded _ g hg _ hobject).pastEnd hobj⟩, hobj⟩

end Ledger

/-! ## The purge -/

namespace TrackEntry

variable {S : Type} {e : TrackEntry S}

section

variable (h : e.cache.Indexed) (now : Nat)
include h

theorem removes_purgePast (group : UInt64) (subgroup : Option UInt64) (ended : End) :
    ObjectCache.Removes now (fun o => Purge.offends o (.past group subgroup ended)) e.cache
      (e.purgePast now group subgroup ended).cache := by
  refine (h.removes_search now group ended.atID _).congr fun loc o _ => ?_
  have hfrom : ended.past o.objectID (o.status == objectStatusNormal) = true →
      ended.atID ≤ o.objectID := by
    unfold End.past
    grind
  simp only [Purge.offends]
  grind

theorem removes_purgeGroup (group : UInt64) :
    ObjectCache.Removes now (fun o => o.groupID == group) e.cache
      (e.purgeGroup now group).cache := by
  have hsearch := h.removes_search now group 0 fun _ => true
  rw [filter_eq_self.mpr fun _ _ => rfl] at hsearch
  refine hsearch.congr fun loc o _ => ?_
  simp

theorem removes_purge (p : Purge) :
    ObjectCache.Removes now (fun o => e.ledger.sweeps o p) e.cache (e.purge now p).cache := by
  cases p with
  | past group subgroup ended => exact removes_purgePast h now group subgroup ended
  | trackPast loc =>
    simp only [purge, purgeTrackPast, Ledger.sweeps]
    -- over the Groups of the window, each purged from what the ones before left
    generalize e.ledger.delivered.entries = gs
    induction gs generalizing e with
    | nil => exact .none h
    | cons entry gs ih =>
      obtain ⟨id, g⟩ := entry
      rw [foldl_cons]
      split_ifs with habove hat
      · have hgroup := removes_purgeGroup h now id
        refine (hgroup.trans (ih hgroup.indexed)).congr fun _ o _ => ?_
        simp [habove]
      · have hpast := removes_purgePast h now id none ⟨loc.object, true, false⟩
        refine (hpast.trans (ih hpast.indexed)).congr fun _ o _ => ?_
        simp only [Purge.offends, End.past, Option.all_none]
        grind
      · refine (ih h).congr fun _ o _ => ?_
        grind

theorem removes_call (c : Ledger.Call) :
    ObjectCache.Removes now
      (fun o => ((e.ledger.call c).2.err.bind (·.purge)).any (e.ledger.sweeps o)) e.cache
      (e.call now c).1.cache := by
  cases hpurge : (e.ledger.call c).2.err.bind (·.purge) with
  | none =>
    have hcache : (e.call now c).1.cache = e.cache := by
      simp only [call, hpurge]
    rw [hcache]
    exact .none h
  | some p =>
    have hcache : (e.call now c).1.cache = (e.purge now p).cache := by
      simp only [call, hpurge]
    rw [hcache]
    exact removes_purge h now p

end

end TrackEntry

/-! ## Runs of a track's entry -/

/-- A track's entry, with the Locations whose Object `ClaimDelivered` let pass: the fresh, and the
    aged out, which a Subgroup's contributors may still admit. -/
structure Caching (S : Type) where
  entry : TrackEntry S
  claimed : List Location := []

namespace Caching

variable {S : Type} {t : Caching S}

/-- What is done to an entry. `put` is the `Put` of a Subgroup's Object and the `PutDatagram` of a
    datagram. -/
inductive Act (S : Type)
  | call (now : Nat) (c : Ledger.Call)
  | put (now : Nat) (o : CachedObject)
  | updateLargest (loc : Location)
  | addDownstream (sub : SubID)
  | removeDownstream (sub : SubID)
  | acquireSubgroup (key : SubgroupKey) (newSet : S)
  | releaseSubgroup (key : SubgroupKey)

/-- The Location that a call lets pass. -/
def passed : Ledger.Call → Ledger.Reply → Option Location
  | .claimDelivered o, ⟨some .fresh, none⟩ => some o.loc
  | .claimDelivered o, ⟨some .agedOut, none⟩ => some o.loc
  | _, _ => none

/-- One step. Only a claimed Object is cached, at any time after its claim. -/
def step (t : Caching S) : Act S → Option (Caching S)
  | .call now c =>
    some ⟨(t.entry.call now c).1, (passed c (t.entry.call now c).2).toList ++ t.claimed⟩
  | .put now o =>
    if o.loc ∈ t.claimed then
      some { t with entry := { t.entry with cache := t.entry.cache.put now o } }
    else none
  | .updateLargest loc => some { t with entry := t.entry.updateLargest loc }
  | .addDownstream sub => some { t with entry := t.entry.addDownstreamSnapshotLargest sub }
  | .removeDownstream sub => some { t with entry := t.entry.removeDownstream sub }
  | .acquireSubgroup key newSet =>
    some { t with entry := (t.entry.acquireSubgroup key newSet).1 }
  | .releaseSubgroup key => some { t with entry := (t.entry.releaseSubgroup key).1 }

/-- `NewTrackEntry`, with a cache of a size and a TTL. -/
def new (maxSize maxDuration : Nat) : Caching S where
  entry := { cache := ObjectCache.new maxSize maxDuration }

/-- What is cached was claimed, and the ledger still knows. -/
structure Inv (t : Caching S) : Prop where
  wf : t.entry.ledger.WF
  bounded : t.entry.ledger.Bounded
  indexed : t.entry.cache.Indexed
  cached : ∀ loc o, t.entry.cache.entryAt loc = some o → t.entry.ledger.Settled loc
  claimed : ∀ loc ∈ t.claimed, t.entry.ledger.Settled loc

theorem inv_new (maxSize maxDuration : Nat) : (new (S := S) maxSize maxDuration).Inv where
  wf := .new
  bounded := fun _ _ h => nomatch h
  indexed := ObjectCache.indexed_new maxSize maxDuration
  cached := fun _ _ h => nomatch h
  claimed := fun _ h => absurd h List.not_mem_nil

theorem settled_of_passed {l : Ledger} {c : Ledger.Call} {loc : Location}
    (h : passed c (l.call c).2 = some loc) : (l.call c).1.Settled loc := by
  cases c with
  | recordDuplicate | subgroupEnded => cases h
  | claimDelivered o =>
    obtain ⟨l', claim, err, hcall⟩ : ∃ l' claim err, l.claimDelivered o = (l', claim, err) :=
      ⟨_, _, _, rfl⟩
    have hstep := Ledger.claimDelivered_step hcall
    simp only [Ledger.call, hcall] at h ⊢
    cases hstep with
    | agedOut hage =>
      cases h
      exact .inl hage
    | malformed | absent | duplicate => cases h
    | fresh =>
      cases h
      exact .inr ⟨_, AList.lookup_insert _, Finset.mem_insert_self _ _⟩

theorem entryAt_put {c : ObjectCache} (h : c.Indexed) {now : Nat} {obj o : CachedObject}
    {loc : Location} (hentry : (c.put now obj).entryAt loc = some o) :
    loc = obj.loc ∨ c.entryAt loc = some o := by
  obtain ⟨hmem, hloc⟩ := (h.put now obj).entryAt_iff.mp hentry
  have hring : ∃ i, (c.put now obj).ring = c.ring.set i (some { obj with receivedAt := now }) := by
    unfold ObjectCache.put ObjectCache.insertLocked
    split <;> exact ⟨_, rfl⟩
  obtain ⟨i, hring⟩ := hring
  rw [hring] at hmem
  rcases mem_or_eq_of_mem_set hmem with hold | hnew
  · exact .inr (h.entryAt_iff.mpr ⟨hold, hloc⟩)
  · cases hnew
    exact .inl hloc.symm

theorem Inv.of_entry (h : t.Inv) {e : TrackEntry S} (hledger : e.ledger = t.entry.ledger)
    (hcache : e.cache = t.entry.cache) : Inv { t with entry := e } where
  wf := hledger ▸ h.wf
  bounded := hledger ▸ h.bounded
  indexed := hcache ▸ h.indexed
  cached loc o hentry := by
    rw [hledger]
    exact h.cached loc o (hcache ▸ hentry)
  claimed := hledger ▸ h.claimed

theorem Inv.step {t' : Caching S} {a : Act S} (h : t.Inv) (hstep : t.step a = some t') :
    t'.Inv := by
  cases a with
  | call now c =>
    cases hstep
    obtain ⟨hwf, hev⟩ := Ledger.call_evolves h.wf c
    have hremoves := TrackEntry.removes_call h.indexed now c
    refine ⟨hwf, h.bounded.call h.wf c, hremoves.indexed, fun loc o hentry => ?_,
      fun loc hloc => ?_⟩
    · exact (h.cached loc o (hremoves.subset hentry)).evolves hev
    · rcases mem_append.mp hloc with hnew | hold
      · exact settled_of_passed (Option.mem_toList.mp hnew)
      · exact (h.claimed loc hold).evolves hev
  | put now o =>
    simp only [Caching.step] at hstep
    split_ifs at hstep with hclaimed
    cases hstep
    refine ⟨h.wf, h.bounded, h.indexed.put now o, fun loc o' hentry => ?_, h.claimed⟩
    rcases entryAt_put h.indexed hentry with rfl | hold
    · exact h.claimed o.loc hclaimed
    · exact h.cached loc o' hold
  | updateLargest loc =>
    cases hstep
    obtain ⟨largest, known, heq⟩ := t.entry.updateLargest_eq loc
    exact h.of_entry (by rw [heq]) (by rw [heq])
  | addDownstream | removeDownstream =>
    cases hstep
    exact h.of_entry rfl rfl
  | acquireSubgroup key newSet =>
    cases hstep
    unfold TrackEntry.acquireSubgroup
    split <;> exact h.of_entry rfl rfl
  | releaseSubgroup key =>
    cases hstep
    obtain ⟨subgroups, heq⟩ := t.entry.releaseSubgroup_eq key
    exact h.of_entry (by rw [heq]) (by rw [heq])

theorem Inv.removes_offense (h : t.Inv) (now : Nat) {c : Ledger.Call} {err : Malformed}
    (herr : (t.entry.ledger.call c).2.err = some err) : ObjectCache.Removes now
      (fun o => (t.entry.ledger.offense c err.err).any (Purge.offends o)) t.entry.cache
      (t.entry.call now c).1.cache := by
  obtain ⟨-, hpurge, -⟩ := Ledger.call_err herr
  refine (TrackEntry.removes_call h.indexed now c).congr fun loc o hentry => ?_
  rw [herr, Option.bind_some, ← hpurge]
  cases hp : err.purge with
  | none => rfl
  | some p =>
    have hsettled := h.cached loc o hentry
    rw [← (h.indexed.entryAt_iff.mp hentry).2] at hsettled
    exact Ledger.sweeps_eq_offends h.wf h.bounded herr hp hsettled

end Caching

theorem ObjectCache.notExpired_mono {c : ObjectCache} {now now' : Nat} {o : CachedObject}
    (hle : now ≤ now') (h : c.notExpired now' o = true) : c.notExpired now o = true := by
  unfold ObjectCache.notExpired at *
  grind

/-- **A ledger error changes nothing but the offending cache entries.** In every reachable state
    of a track's entry, for every call that returns an error: the entry is as it was but for its
    cache; the cache is as it was but for the error's offense, what had expired apart; and no
    reader finds any of the offense again. -/
theorem ledger_error_spares {S : Type} (maxSize maxDuration : Nat) {acts : List (Caching.Act S)}
    {t : Caching S} (hrun : Lib.run Caching.step (.new maxSize maxDuration) acts = some t)
    (now : Nat) (c : Ledger.Call) {err : Malformed}
    (herr : (t.entry.call now c).2.err = some err) :
    (t.entry.call now c).1 = { t.entry with cache := (t.entry.call now c).1.cache } ∧
    (∀ loc, (t.entry.call now c).1.cache.entryAt loc = (t.entry.cache.entryAt loc).filter fun o =>
      !(t.entry.cache.notExpired now o &&
        (t.entry.ledger.offense c err.err).any (Purge.offends o))) ∧
    ∀ now' loc o, now ≤ now' → (t.entry.call now c).1.cache.get now' loc = some o →
      (t.entry.ledger.offense c err.err).any (Purge.offends o) = false := by
  have hinv : t.Inv := Lib.run_inv (fun _ _ _ h hstep => h.step hstep) (Caching.inv_new _ _) hrun
  have hremoves := hinv.removes_offense now herr
  refine ⟨?_, hremoves.entries, fun now' loc o hle hget => ?_⟩
  · obtain ⟨cache, heq⟩ := t.entry.call_eq now c
    rw [heq, TrackEntry.after, (Ledger.call_err herr).1]
  · have hfound : (t.entry.call now c).1.cache.entryAt loc = some o ∧
        (t.entry.call now c).1.cache.notExpired now' o = true := by
      unfold ObjectCache.get at hget
      unfold ObjectCache.entryAt
      split at hget
      · cases hget
      · next idx hidx =>
        rw [hidx]
        exact Option.filter_eq_some_iff.mp hget
    rw [hremoves.entries, Option.filter_eq_some_iff] at hfound
    have hlive : t.entry.cache.notExpired now o = true := by
      refine ObjectCache.notExpired_mono hle ?_
      simpa only [ObjectCache.notExpired, hremoves.maxAge] using hfound.2
    simpa [hlive] using hfound.1.2

/-- Objects of Groups 5 and 7 are cached when an END_OF_TRACK comes in Group 6: the later one goes,
    the earlier one stays. -/
theorem ledger_error_spares_track :
    ∃ (t : Caching Unit) (err : Malformed),
      Lib.run Caching.step (.new 4 0)
        [.call 1 (.claimDelivered { group := 5, object := 0 }),
          .put 1 { groupID := 5, objectID := 0 },
          .call 2 (.claimDelivered { group := 7, object := 2 }),
          .put 2 { groupID := 7, objectID := 2 }] = some t ∧
      (t.entry.call 3 (.claimDelivered { group := 6, object := 1, status := 4 })).2.err = some err ∧
      err.err = .trackEndBelow 1 6 ∧
      (t.entry.call 3 (.claimDelivered { group := 6, object := 1, status := 4 })).1.cache.entryAt
        ⟨7, 2⟩ = none ∧
      (t.entry.call 3 (.claimDelivered { group := 6, object := 1, status := 4 })).1.cache.entryAt
        ⟨5, 0⟩ = some { groupID := 5, objectID := 0, receivedAt := 1 } := by
  have hrun : Lib.run Caching.step (.new 4 0 : Caching Unit)
      [.call 1 (.claimDelivered { group := 5, object := 0 }),
        .put 1 { groupID := 5, objectID := 0 },
        .call 2 (.claimDelivered { group := 7, object := 2 }),
        .put 2 { groupID := 7, objectID := 2 }] = some _ := rfl
  have hspares := (ledger_error_spares 4 0 hrun 3
    (.claimDelivered { group := 6, object := 1, status := 4 }) rfl).2.1
  exact ⟨_, _, hrun, rfl, rfl, hspares ⟨7, 2⟩, hspares ⟨5, 0⟩⟩

end MoqGo.Relay
