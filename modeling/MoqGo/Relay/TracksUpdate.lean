import MoqGo.Message.RangeFilterCodec
import MoqGo.Message.RangeSets

/-!
# Two ways to update Range Filters (`handler_namespace.go`, `rangefilter.go`)

A REQUEST_UPDATE replaces the Range Filters of the types it carries. A subscription does that to
the filters it has (`RangeFilterSet.Update`); a SUBSCRIBE_TRACKS keeps its raw parameters, does it
to those (`mergeTracksUpdate`) and parses the outcome. The first reads the filters back out of
their groups, so the two build their sets from the same filters in different orders
(`parse_merged`), and that does not show.
-/

namespace MoqGo

/-! ## Parsing part of a list -/

namespace Message

/-- `IsRangeFilterParam`. -/
def isRangeFilterParam (t : UInt64) : Bool := decide (0x25 ≤ t) && decide (t ≤ 0x29)

theorem ofParam_inj {t t' : UInt64} {type : RangeFilterType}
    (h : RangeFilterType.ofParam t = some type) (h' : RangeFilterType.ofParam t' = some type) :
    t = t' := by
  unfold RangeFilterType.ofParam at h h'
  grind

/-- What one parameter adds to `parseRangeFilters`. -/
def rangeFilterOfParam (p : Parameter) : Except InvalidFilter (List RangeFilter) :=
  match RangeFilterType.ofParam p.type with
  | none => .ok []
  | some t =>
    if p.bytes = [] then .ok []
    else
      match RangeFilter.parse t p.bytes with
      | .error err => .error err
      | .ok f =>
        match f.validate with
        | .error err => .error err
        | .ok () => .ok [f]

theorem parseRangeFilters_cons (p : Parameter) (ps : Parameters) :
    parseRangeFilters (p :: ps) =
      match rangeFilterOfParam p with
      | .error err => .error err
      | .ok fs => (parseRangeFilters ps).map (fs ++ ·) := by
  have hnil : (parseRangeFilters ps).map ([] ++ ·) = parseRangeFilters ps := by
    cases parseRangeFilters ps <;> rfl
  unfold rangeFilterOfParam
  rw [parseRangeFilters]
  cases RangeFilterType.ofParam p.type with
  | none => exact hnil.symm
  | some t =>
    simp only
    split_ifs
    · exact hnil.symm
    · cases RangeFilter.parse t p.bytes with
      | error err => rfl
      | ok f =>
        simp only
        cases f.validate <;> rfl

theorem rangeFilterOfParam_type {p : Parameter} {fs : List RangeFilter}
    (h : rangeFilterOfParam p = .ok fs)
    {f : RangeFilter} (hf : f ∈ fs) : RangeFilterType.ofParam p.type = some f.type := by
  unfold rangeFilterOfParam at h
  split at h
  · cases h
    cases hf
  · next t ht =>
    split_ifs at h
    · cases h
      cases hf
    · split at h
      · cases h
      · next f' hparse =>
        split at h
        · cases h
        · cases h
          rw [List.mem_singleton.mp hf, ht, (RangeFilter.parse_ok hparse).1]

theorem parseRangeFilters_append (ps qs : Parameters) :
    parseRangeFilters (ps ++ qs) =
      match parseRangeFilters ps with
      | .error err => .error err
      | .ok fs => (parseRangeFilters qs).map (fs ++ ·) := by
  induction ps with
  | nil =>
    show parseRangeFilters qs = (parseRangeFilters qs).map ([] ++ ·)
    cases parseRangeFilters qs <;> rfl
  | cons p ps ih =>
    rw [List.cons_append, parseRangeFilters_cons, parseRangeFilters_cons, ih]
    cases rangeFilterOfParam p with
    | error err => rfl
    | ok fs =>
      cases parseRangeFilters ps with
      | error err => rfl
      | ok fs' =>
        cases parseRangeFilters qs with
        | error err => rfl
        | ok gs => simp [Except.map]

theorem parseRangeFilters_filter (keep : UInt64 → Bool) (keepType : RangeFilterType → Bool)
    (hkeep : ∀ t type, RangeFilterType.ofParam t = some type → keep t = keepType type)
    {ps : Parameters} {fs : List RangeFilter} (h : parseRangeFilters ps = .ok fs) :
    parseRangeFilters (ps.filter fun p => keep p.type) =
      .ok (fs.filter fun f => keepType f.type) := by
  induction ps generalizing fs with
  | nil =>
    cases h
    rfl
  | cons p ps ih =>
    rw [parseRangeFilters_cons] at h
    split at h
    · cases h
    · next gs hgs =>
      cases hps : parseRangeFilters ps with
      | error err =>
        rw [hps] at h
        cases h
      | ok fs' =>
        rw [hps] at h
        cases h
        -- the parameter and its filter are kept or dropped together
        have htype : ∀ f ∈ gs, keepType f.type = keep p.type :=
          fun f hf => (hkeep p.type f.type (rangeFilterOfParam_type hgs hf)).symm
        have hrest := ih hps
        rw [List.filter_append]
        cases hk : keep p.type with
        | true =>
          have hgs' : gs.filter (fun f => keepType f.type) = gs :=
            List.filter_eq_self.mpr fun f hf => (htype f hf).trans hk
          simp only [List.filter_cons, hk, if_true, parseRangeFilters_cons, hgs, hrest, hgs']
          rfl
        | false =>
          have hgs' : gs.filter (fun f => keepType f.type) = [] :=
            List.filter_eq_nil_iff.mpr fun f hf => by simp [htype f hf, hk]
          simpa [List.filter_cons, hk, hgs'] using hrest

theorem parseRangeFilters_filter_eq {keep : Parameter → Bool}
    (hkeep : ∀ p, keep p = false → RangeFilterType.ofParam p.type = none ∨ p.bytes = [])
    (ps : Parameters) : parseRangeFilters (ps.filter keep) = parseRangeFilters ps := by
  induction ps with
  | nil => rfl
  | cons p ps ih =>
    cases hk : keep p with
    | true => rw [List.filter_cons_of_pos hk, parseRangeFilters_cons, parseRangeFilters_cons, ih]
    | false =>
      rw [List.filter_cons_of_neg (by simp [hk]), ih, parseRangeFilters]
      rcases hkeep p hk with hnone | hempty
      · rw [hnone]
      · cases RangeFilterType.ofParam p.type with
        | none => rfl
        | some t => simp only [hempty, if_true]

end Message

/-! ## The update -/

namespace Relay

open Message

def paramAuthorizationToken : UInt64 := 0x03
def paramTrackNamespacePrefix : UInt64 := 0x34

/-- `mergeTracksUpdate`. -/
def mergeTracksUpdate (stored upd : Parameters) : Parameters :=
  stored.filter (fun p => !upd.any fun u => u.type = p.type) ++
    upd.filter fun p =>
      if p.type = paramTrackNamespacePrefix ∨ p.type = paramAuthorizationToken then false
      else !(isRangeFilterParam p.type && p.bytes.isEmpty)

variable {ps : Parameters} {s : RangeFilters}

theorem parse_merged {fs : List RangeFilter} (h : parseRangeFilters ps = .ok fs)
    (upd : Parameters) :
    parseRangeFilters (mergeTracksUpdate ps upd) = (parseRangeFilters upd).map
      (fs.filter (fun f => !upd.any fun u => RangeFilterType.ofParam u.type = some f.type) ++
        ·) := by
  have hsame : ∀ t type, RangeFilterType.ofParam t = some type →
      (!upd.any fun u => u.type = t) =
        !upd.any fun u => RangeFilterType.ofParam u.type = some type := by
    intro t type ht
    have hiff : ∀ u : Parameter, u.type = t ↔ RangeFilterType.ofParam u.type = some type :=
      fun u => ⟨fun hu => hu ▸ ht, fun hu => ofParam_inj hu ht⟩
    simp only [hiff]
  have hkept := parseRangeFilters_filter (fun t => !upd.any fun u => u.type = t)
    (fun type => !upd.any fun u => RangeFilterType.ofParam u.type = some type) hsame h
  have hadded : parseRangeFilters (upd.filter fun p =>
      if p.type = paramTrackNamespacePrefix ∨ p.type = paramAuthorizationToken then false
      else !(isRangeFilterParam p.type && p.bytes.isEmpty)) = parseRangeFilters upd := by
    refine parseRangeFilters_filter_eq (fun p hp => ?_) upd
    split_ifs at hp with hown
    · rcases hown with hown | hown
      · exact .inl (by rw [hown]; rfl)
      · exact .inl (by rw [hown]; rfl)
    · rw [Bool.not_eq_false', Bool.and_eq_true, List.isEmpty_iff] at hp
      exact .inr hp.2
  rw [mergeTracksUpdate, parseRangeFilters_append, hkept, hadded]

theorem parse_of_params (h : rangeFiltersFromParams ps = .ok s) :
    ∃ fs, parseRangeFilters ps = .ok fs ∧ RangeFilterSet.build fs = .ok s := by
  unfold rangeFiltersFromParams at h
  split at h
  · cases h
  · next fs hfs => exact ⟨fs, hfs, h⟩

theorem filters_perm {fs : List RangeFilter} (h : RangeFilterSet.build fs = .ok s) :
    ((s.map (·.filters)).getD []).Perm fs := by
  rcases RangeFilterSet.holds_build h with ⟨rfl, rfl⟩ | ⟨-, s, rfl, hs⟩
  · exact .refl _
  · exact hs.perm

/-- **The two ways to update agree**: both fail or neither, and the sets are of the same
    filters. -/
theorem update_agree (hps : rangeFiltersFromParams ps = .ok s) (upd : Parameters) :
    ((∃ err, rangeFiltersFromParams (mergeTracksUpdate ps upd) = .error err) ↔
      ∃ err, updateRangeFilters s upd = .error err) ∧
    ∀ merged updated, rangeFiltersFromParams (mergeTracksUpdate ps upd) = .ok merged →
      updateRangeFilters s upd = .ok updated → RangeFilters.Agree merged updated := by
  obtain ⟨fs, hfs, hbuild⟩ := parse_of_params hps
  have hmerged := parse_merged hfs upd
  cases hupd : parseRangeFilters upd with
  | error err =>
    simp only [rangeFiltersFromParams, updateRangeFilters, hmerged, hupd, Except.map]
    exact ⟨by simp, fun _ _ hm => by cases hm⟩
  | ok added =>
    simp only [rangeFiltersFromParams, updateRangeFilters, hmerged, hupd, Except.map]
    have hperm := (((filters_perm hbuild).symm.filter fun f =>
      !upd.any fun u => RangeFilterType.ofParam u.type = some f.type).append_right added)
    refine ⟨?_, fun merged updated hm hu => RangeFilterSet.build_agree hperm hm hu⟩
    rw [RangeFilterSet.build_fails_iff, RangeFilterSet.build_fails_iff, (hperm.map _).nodup_iff]

/-- **Range Filter sets have one meaning.** A set built from parameters matches an Object, asked
    with its own vector, if and only if all filters of some `SetID` are satisfied; it matches a
    track if and only if some group passes it; the nil set, of a list without Range Filters, matches
    everything. The two ways to apply an update agree. -/
theorem rangeFilters_meaning {ps : Parameters} {s : RangeFilters}
    (hps : rangeFiltersFromParams ps = .ok s) :
    (∃ fs, parseRangeFilters ps = .ok fs ∧ (s = none ↔ fs = []) ∧ ∀ o trackProps,
      (RangeFilters.matchesObjectInSets s o (RangeFilters.trackPassPerGroup s trackProps) = true ↔
        s = none ∨ ∃ f ∈ fs, ∀ f' ∈ fs, f'.setID = f.setID → f'.Selects o trackProps)) ∧
    (∀ trackProps, RangeFilters.matchesTrack s trackProps = true ↔
      s = none ∨ ∃ pass, RangeFilters.trackPassPerGroup s trackProps = some pass ∧ true ∈ pass) ∧
    ∀ upd,
      ((∃ err, rangeFiltersFromParams (mergeTracksUpdate ps upd) = .error err) ↔
        ∃ err, updateRangeFilters s upd = .error err) ∧
      ∀ merged updated, rangeFiltersFromParams (mergeTracksUpdate ps upd) = .ok merged →
        updateRangeFilters s upd = .ok updated → RangeFilters.Agree merged updated := by
  refine ⟨?_, fun trackProps => ?_, update_agree hps⟩
  · obtain ⟨fs, hfs, hbuild⟩ := parse_of_params hps
    refine ⟨fs, hfs, ?_⟩
    rcases RangeFilterSet.holds_build hbuild with ⟨rfl, rfl⟩ | ⟨hne, s, rfl, hs⟩
    · exact ⟨by simp, fun _ _ => by simp [RangeFilters.matchesObjectInSets]⟩
    · refine ⟨by simpa using hne, fun o trackProps => ?_⟩
      rw [← hs.matchesObjectInSets_iff hne]
      simp [RangeFilters.matchesObjectInSets, RangeFilters.trackPassPerGroup]
  · obtain ⟨fs, -, hbuild⟩ := parse_of_params hps
    rcases RangeFilterSet.holds_build hbuild with ⟨-, rfl⟩ | ⟨hne, s, rfl, hs⟩
    · simp [RangeFilters.matchesTrack]
    · simp [RangeFilters.matchesTrack, RangeFilters.trackPassPerGroup, RangeFilterSet.matchesTrack,
        RangeFilterSet.trackPassPerGroup, hs.groups_ne_nil hne]

/-- Set 0: the Subgroup ID is at most 9 and the Object ID is 9. Set 1: the Object ID is 5. -/
def interleavedSets : Parameters :=
  [{ type := 0x25, bytes := [0, 0, 9] }, { type := 0x26, bytes := [1, 5, 0] },
    { type := 0x26, bytes := [0, 9, 0] }]

/-- What `interleavedSets` are parsed to. -/
def interleaved : RangeFilterSet where
  groups := [⟨0, [⟨.subgroup, 0, 0, [⟨0, 9, false⟩]⟩, ⟨.objectID, 0, 0, [⟨9, 9, false⟩]⟩]⟩,
    ⟨1, [⟨.objectID, 1, 0, [⟨5, 5, false⟩]⟩]⟩]
  totalRanges := 3

/-- An update that removes the Subgroup filter. The set of the merged parameters begins with
    set 1, the updated one with set 0. -/
theorem rangeFilters_meaning_interleaved :
    rangeFiltersFromParams interleavedSets = .ok (some interleaved) ∧
    RangeFilters.matchesObjectInSets (some interleaved) ⟨0, 5, 128, []⟩
      (RangeFilters.trackPassPerGroup (some interleaved) []) = true ∧
    ∃ merged updated,
      rangeFiltersFromParams (mergeTracksUpdate interleavedSets [{ type := 0x25 }]) =
        .ok (some merged) ∧
      updateRangeFilters (some interleaved) [{ type := 0x25 }] = .ok (some updated) ∧
      merged.groups.map (·.setID) = [1, 0] ∧ updated.groups.map (·.setID) = [0, 1] ∧
      RangeFilters.Agree (some merged) (some updated) := by
  have hs : rangeFiltersFromParams interleavedSets = .ok (some interleaved) := by decide +kernel
  have hmerged : rangeFiltersFromParams (mergeTracksUpdate interleavedSets [{ type := 0x25 }]) =
    .ok (some _) := rfl
  have hupdated : updateRangeFilters (some interleaved) [{ type := 0x25 }] = .ok (some _) := rfl
  refine ⟨hs, by decide +kernel, _, _, hmerged, hupdated, rfl, rfl, ?_⟩
  exact ((rangeFilters_meaning hs).2.2 _).2 _ _ hmerged hupdated

/-- The nil set passes every track, and has no group that does. -/
theorem nilSet_matchesTrack :
    rangeFiltersFromParams [] = .ok none ∧ ∀ trackProps,
      RangeFilters.matchesTrack none trackProps = true ∧
      ¬ ∃ pass, RangeFilters.trackPassPerGroup none trackProps = some pass ∧ true ∈ pass := by
  refine ⟨rfl, fun trackProps => ⟨rfl, ?_⟩⟩
  rintro ⟨pass, hpass, -⟩
  cases hpass

end Relay
end MoqGo
