import MoqGo.Message.RangeFilter

/-!
# What a set of Range Filters matches (`pkg/moqt/message/rangefilter.go`)

`TrackPassPerGroup` asks each group about the track once, and `MatchesObjectInSets` then asks the
groups the track passed about each Object: together they are the law (`SetSelects`), group by
group. `MatchesTrack` is the first question alone.

A set can be built twice from the same filters in another order, because an update reads them back
out of the groups. **The order does not show**: duplicates are found in any order
(`build_isOk_iff`), and what a set matches and how many ranges it has depends only on which filters
it holds (`RangeFilterSet.Holds`).

A request without Range Filters has the nil set, which matches everything. It has no groups, so
`TrackPassPerGroup` has no entry for it though `MatchesTrack` holds.
-/

namespace MoqGo.Message

open Wire List

namespace RangeFilterSet

/-- `RangeFilterSet.TrackPassPerGroup`. -/
def trackPassPerGroup (s : RangeFilterSet) (trackProps : List UInt8) : List Bool :=
  let pairs := if s.hasTrackProperty then searchable trackProps else []
  s.groups.map fun g => g.matchTrack pairs

/-- `RangeFilterSet.MatchesObjectInSets`. A vector `trackPass` has an entry for each group. -/
def matchesObjectInSets (s : RangeFilterSet) (o : ObjectAttrs) (trackPass : Option (List Bool)) :
    Bool :=
  if s.groups = [] then true
  else
    let pairs := if s.hasObjectProperty then searchable o.props else []
    match trackPass with
    | none => s.groups.any fun g => g.matchObject o pairs
    | some pass => (s.groups.zip pass).any fun (g, ok) => ok && g.matchObject o pairs

end RangeFilterSet

/-! ## The nil set -/

/-- A `*RangeFilterSet`; the nil set restricts nothing. -/
abbrev RangeFilters := Option RangeFilterSet

namespace RangeFilters

/-- `RangeFilterSet.TrackPassPerGroup`. -/
def trackPassPerGroup (s : RangeFilters) (trackProps : List UInt8) : Option (List Bool) :=
  s.map (·.trackPassPerGroup trackProps)

/-- `RangeFilterSet.MatchesObjectInSets`. -/
def matchesObjectInSets (s : RangeFilters) (o : ObjectAttrs) (trackPass : Option (List Bool)) :
    Bool :=
  (s.map (·.matchesObjectInSets o trackPass)).getD true

/-- `RangeFilterSet.MatchesTrack`. -/
def matchesTrack (s : RangeFilters) (trackProps : List UInt8) : Bool :=
  (s.map (·.matchesTrack trackProps)).getD true

/-- `RangeFilterSet.Validate`. -/
def validate (s : RangeFilters) (maxFilterRanges : UInt64) : Except InvalidFilter Unit :=
  (s.map (·.validate maxFilterRanges)).getD (.ok ())

end RangeFilters

/-! ## The filters a set holds -/

/-- `filterKey`: what no two filters of a request share. -/
def RangeFilter.key (f : RangeFilter) : RangeFilterType × UInt8 × UInt64 :=
  (f.type, f.setID, f.propertyType)

namespace RangeFilterSet

variable {s : RangeFilterSet} {fs : List RangeFilter}

theorem seen_any_iff (seen : List RangeFilter) (f : RangeFilter) :
    (seen.any fun x => x.type = f.type ∧ x.setID = f.setID ∧ x.propertyType = f.propertyType) =
      true ↔ f.key ∈ seen.map (·.key) := by
  simp [RangeFilter.key]

theorem addAll_isOk_iff (fs : List RangeFilter) : ∀ (s : RangeFilterSet) (seen : List RangeFilter),
    (∃ s', addAll s seen fs = .ok s') ↔
      (fs.map (·.key)).Nodup ∧ ∀ f ∈ fs, f.key ∉ seen.map (·.key) := by
  induction fs with
  | nil => simp [addAll]
  | cons f fs ih =>
    intro s seen
    unfold addAll
    split_ifs with hdup
    · rw [seen_any_iff] at hdup
      simp only [exists_false, false_iff, not_and]
      intro _ hnew
      exact hnew f mem_cons_self hdup
    · rw [seen_any_iff] at hdup
      rw [ih (s.add f) (seen ++ [f])]
      simp only [map_append, map_cons, map_nil, nodup_cons]
      constructor
      · intro ⟨hnodup, hnew⟩
        refine ⟨⟨?_, hnodup⟩, ?_⟩
        · rintro hmem
          obtain ⟨f', hf', hkey⟩ := mem_map.mp hmem
          exact hnew f' hf' (mem_append_right _ (by simpa using hkey))
        · intro f' hf'
          rcases mem_cons.mp hf' with rfl | hf'
          · exact hdup
          · exact fun hmem => hnew f' hf' (mem_append_left _ hmem)
      · intro ⟨⟨hf, hnodup⟩, hnew⟩
        refine ⟨hnodup, fun f' hf' hmem => ?_⟩
        rcases mem_append.mp hmem with hseen | hkey
        · exact hnew f' (mem_cons_of_mem f hf') hseen
        · exact hf (mem_map.mpr ⟨f', hf', mem_singleton.mp hkey⟩)

theorem build_isOk_iff (fs : List RangeFilter) :
    (∃ s, build fs = .ok s) ↔ (fs.map (·.key)).Nodup := by
  unfold build
  split_ifs with hfs
  · simp [hfs]
  · have hadd := addAll_isOk_iff fs {} []
    simp only [map_nil, not_mem_nil, not_false_eq_true, implies_true, and_true] at hadd
    rw [← hadd]
    cases addAll {} [] fs with
    | error err => simp [Except.map]
    | ok s => simp [Except.map]

/-! ## The two questions -/

theorem Holds.matchTrack_pairs (h : s.Holds fs) (trackProps : List UInt8) {f : RangeFilter}
    (hf : f ∈ fs) : f.matchTrack (if s.hasTrackProperty then searchable trackProps else []) =
      f.matchTrack (searchable trackProps) := by
  split_ifs with hprop
  · rfl
  · have htype : f.type ≠ .trackProperty := by
      intro htype
      rw [h.hasTrackProperty, any_eq_true] at hprop
      exact hprop ⟨f, hf, by simpa using htype⟩
    unfold RangeFilter.matchTrack
    cases ht : f.type with
    | trackProperty => exact absurd ht htype
    | subgroup | objectID | priority | objectProperty => rfl

/-- **`MatchesTrack`** asks for a set whose track filters are satisfied. -/
theorem Holds.matchesTrack_iff (h : s.Holds fs) (hfs : fs ≠ []) (trackProps : List UInt8) :
    s.matchesTrack trackProps = true ↔ ∃ f ∈ fs, ∀ f' ∈ fs, f'.setID = f.setID →
      f'.matchTrack (searchable trackProps) = true := by
  rw [matchesTrack, if_neg (h.groups_ne_nil hfs)]
  apply h.grouped.any_groups_iff
  intro f hf
  rw [h.matchTrack_pairs trackProps hf]

theorem matchesObjectInSets_eq (hs : s.groups ≠ []) (o : ObjectAttrs) (trackProps : List UInt8) :
    s.matchesObjectInSets o (some (s.trackPassPerGroup trackProps)) =
      s.groups.any fun g => g.filters.all fun f =>
        f.matchObject o (if s.hasObjectProperty then searchable o.props else []) &&
          f.matchTrack (if s.hasTrackProperty then searchable trackProps else []) := by
  rw [matchesObjectInSets, if_neg hs]
  have hzip : ∀ p : RangeGroup → Bool,
      s.groups.zip (s.groups.map p) = s.groups.map fun g => (g, p g) := by
    intro p
    simpa using zip_map' (f := id) (g := p) (l := s.groups)
  simp only [trackPassPerGroup, hzip, any_map]
  congr 1
  funext g
  rw [Bool.eq_iff_iff]
  simp [RangeGroup.matchObject, RangeGroup.matchTrack, forall_and, and_comm]

theorem Holds.matchesObjectInSets_iff (h : s.Holds fs) (hfs : fs ≠ []) (o : ObjectAttrs)
    (trackProps : List UInt8) :
    s.matchesObjectInSets o (some (s.trackPassPerGroup trackProps)) = true ↔
      ∃ f ∈ fs, ∀ f' ∈ fs, f'.setID = f.setID → f'.Selects o trackProps := by
  rw [matchesObjectInSets_eq (h.groups_ne_nil hfs)]
  apply h.grouped.any_groups_iff
  intro f hf
  rw [h.matchObject_pairs o hf, h.matchTrack_pairs trackProps hf, Bool.and_eq_true, f.selects_iff]

end RangeFilterSet

/-! ## Another order -/

/-- The sets answer every question alike. -/
structure RangeFilters.Agree (s s' : RangeFilters) : Prop where
  inSets : ∀ o trackProps,
    matchesObjectInSets s o (trackPassPerGroup s trackProps) =
      matchesObjectInSets s' o (trackPassPerGroup s' trackProps)
  object : ∀ o, matchesObjectInSets s o none = matchesObjectInSets s' o none
  track : ∀ trackProps, matchesTrack s trackProps = matchesTrack s' trackProps
  limit : ∀ maxFilterRanges, validate s maxFilterRanges = validate s' maxFilterRanges

namespace RangeFilterSet

theorem Holds.agree {s s' : RangeFilterSet} {fs fs' : List RangeFilter} (h : s.Holds fs)
    (h' : s'.Holds fs') (hperm : fs.Perm fs') (hfs : fs ≠ []) :
    RangeFilters.Agree (some s) (some s') := by
  have hfs' : fs' ≠ [] := fun hnil => hfs (hnil ▸ hperm).eq_nil
  refine ⟨fun o trackProps => ?_, fun o => ?_, fun trackProps => ?_, fun maxFilterRanges => ?_⟩
  · show s.matchesObjectInSets o (some (s.trackPassPerGroup trackProps)) =
      s'.matchesObjectInSets o (some (s'.trackPassPerGroup trackProps))
    rw [Bool.eq_iff_iff, h.matchesObjectInSets_iff hfs, h'.matchesObjectInSets_iff hfs']
    simp only [hperm.mem_iff]
  · show s.matchesObject o = s'.matchesObject o
    rw [Bool.eq_iff_iff, h.matchesObject_iff hfs, h'.matchesObject_iff hfs']
    simp only [hperm.mem_iff]
  · show s.matchesTrack trackProps = s'.matchesTrack trackProps
    rw [Bool.eq_iff_iff, h.matchesTrack_iff hfs, h'.matchesTrack_iff hfs']
    simp only [hperm.mem_iff]
  · have htotal : s.totalRanges = s'.totalRanges := by
      rw [h.totalRanges, h'.totalRanges]
      exact (hperm.map _).sum_eq
    simp only [RangeFilters.validate, Option.map_some, Option.getD_some, validate, htotal]

theorem build_fails_iff (fs : List RangeFilter) :
    (∃ err, build fs = .error err) ↔ ¬ (fs.map (·.key)).Nodup := by
  rw [← build_isOk_iff]
  cases build fs with
  | error err => simp
  | ok s => simp

theorem build_agree {fs fs' : List RangeFilter} (hperm : fs.Perm fs') {s s' : RangeFilters}
    (h : build fs = .ok s) (h' : build fs' = .ok s') : RangeFilters.Agree s s' := by
  rcases holds_build h with ⟨rfl, rfl⟩ | ⟨hfs, s, rfl, hs⟩
  · have hnil : fs' = [] := hperm.symm.eq_nil
    rcases holds_build h' with ⟨-, rfl⟩ | ⟨hfs', -⟩
    · exact ⟨fun _ _ => rfl, fun _ => rfl, fun _ => rfl, fun _ => rfl⟩
    · exact absurd hnil hfs'
  · rcases holds_build h' with ⟨rfl, -⟩ | ⟨-, s', rfl, hs'⟩
    · exact absurd hperm.eq_nil hfs
    · exact hs.agree hs' hperm hfs

end RangeFilterSet

end MoqGo.Message
