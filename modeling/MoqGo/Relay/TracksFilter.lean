import MoqGo.Relay.Subscription

/-!
# Range Filters from SUBSCRIBE_TRACKS to delivery (`handler_namespace.go`, `handler_forward.go`)

A `SUBSCRIBE_TRACKS` is offered each track whose Properties pass its track filters
(`MatchesTrack`), and gets a subscription for it with the same parameters, whose Objects must
pass the Object filters (`MatchesObject`). The law asks for *one* set of filters that both
pass; the source asks for a set the track passes and, separately, for a set the Object passes.

**The two need not be the same set** (`object_of_other_set`): `MatchesObject` also counts the
sets whose track filters the track failed. The verdict agrees with the law exactly where no
such set makes the difference (`forwardDecision_selects_iff`).
-/

namespace MoqGo.Relay

open Message

/-- `TracksParams`, of what decides about tracks. -/
structure TracksParams where
  params : Parameters
  rangeFilters : Option RangeFilterSet
deriving DecidableEq, Repr

/-- `resolveTracksParams`. -/
def resolveTracksParams (maxFilterRanges : UInt64) (ps : Parameters) :
    Except InvalidFilter TracksParams :=
  match rangeFiltersFromParams ps with
  | .error err => .error err
  | .ok rf =>
    match (rf.map (·.validate maxFilterRanges)).getD (.ok ()) with
    | .error err => .error err
    | .ok () =>
      match installSubscribeParams maxFilterRanges {} ps with
      | (_, some err) => .error err
      | (_, none) => .ok ⟨ps, rf⟩

/-- `forwardTrack`, then `serveForwardedPublish`: the subscription for a track that passes the
    track filters, with the Largest Object it was registered at. -/
def forwardTrack (maxFilterRanges : UInt64) (tp : TracksParams) (trackProps : List UInt8)
    (largest : Location) (hasLargest : Bool) : Option DownstreamSub :=
  if (tp.rangeFilters.map (·.matchesTrack trackProps)).getD true then
    let (d, _) := installSubscribeParams maxFilterRanges {} tp.params
    some (d.setLargestAtSubscribe largest hasLargest)
  else none

variable {maxFilterRanges : UInt64} {ps : Parameters} {trackProps : List UInt8}

theorem installSubscribeParams_eq {rf : Option RangeFilterSet}
    (hrf : rangeFiltersFromParams ps = .ok rf)
    (hok : (installSubscribeParams maxFilterRanges {} ps).2 = none) :
    ∃ filter forwardState, (installSubscribeParams maxFilterRanges {} ps).1 =
      { filter := filter, forwardState := forwardState, rangeFilters := rf } := by
  obtain ⟨filter, forwardState, heq⟩ := installForward_eq {} ps
  refine ⟨filter, forwardState, ?_⟩
  unfold installSubscribeParams at hok ⊢
  simp only [heq] at hok ⊢
  split_ifs at hok ⊢ with hany
  · have hnil := parseRangeFilters_eq_nil (by simpa using hany)
    rw [rangeFiltersFromParams, hnil] at hrf
    cases hrf
    rfl
  · rw [updateRangeFilters_none, hrf] at hok ⊢
    cases rf with
    | none => rfl
    | some rf =>
      simp only at hok ⊢
      split at hok
      · cases hok
      · next hvalid => rfl

theorem forwardTrack_eq {tp : TracksParams} {largest : Location} {hasLargest : Bool}
    {d : DownstreamSub} (hps : resolveTracksParams maxFilterRanges ps = .ok tp)
    (hd : forwardTrack maxFilterRanges tp trackProps largest hasLargest = some d) :
    d.state = .established ∧ rangeFiltersFromParams ps = .ok d.rangeFilters := by
  unfold resolveTracksParams at hps
  split at hps
  · cases hps
  · next rf hrf =>
    split at hps
    · cases hps
    · split at hps
      · cases hps
      · next d₀ hinstall =>
        cases hps
        obtain ⟨filter, forwardState, heq⟩ :=
          @installSubscribeParams_eq maxFilterRanges ps rf hrf (by rw [hinstall])
        unfold forwardTrack at hd
        split_ifs at hd
        simp only [hinstall] at hd heq
        rw [heq] at hd
        cases hd
        exact ⟨rfl, hrf⟩

/-! ## Verdict and law -/

/-- The track filters do decide: a set with one that the track fails also has an Object filter
    that the Object fails, unless some other set is satisfied. -/
def TrackFiltersDecide (fs : List RangeFilter) (o : ObjectAttrs) (trackProps : List UInt8) :
    Prop :=
  ∀ f ∈ fs, f.type = .trackProperty → ¬ f.Selects o trackProps →
    (∃ f' ∈ fs, f'.setID = f.setID ∧ f'.type ≠ .trackProperty ∧ ¬ f'.Selects o trackProps) ∨
      SetSelects fs o trackProps

instance (fs : List RangeFilter) (o : ObjectAttrs) (trackProps : List UInt8) :
    Decidable (TrackFiltersDecide fs o trackProps) := by
  unfold TrackFiltersDecide
  infer_instance

theorem selects_of_ne_trackProperty {f : RangeFilter} (hf : f.type ≠ .trackProperty)
    (o : ObjectAttrs) (trackProps : List UInt8) :
    f.Selects o trackProps ↔ f.matchObject o (searchable o.props) = true := by
  rw [f.selects_iff]
  have htrack : f.matchTrack (searchable trackProps) = true := by
    unfold RangeFilter.matchTrack
    cases ht : f.type with
    | trackProperty => exact absurd ht hf
    | subgroup | objectID | priority | objectProperty => rfl
  simp [htrack]

theorem matchObject_trackProperty {f : RangeFilter} (hf : f.type = .trackProperty)
    (o : ObjectAttrs) (pairs : List Wire.KVPair) : f.matchObject o pairs = true := by
  simp [RangeFilter.matchObject, hf]

/-- **What the relay asks of an Object**: some set's Object filters are satisfied. -/
theorem forwardDecision_eq_forward_iff {tp : TracksParams} {fs : List RangeFilter}
    {largest : Location} {hasLargest : Bool} {d : DownstreamSub} {group : UInt64} {o : ObjectAttrs}
    (hps : resolveTracksParams maxFilterRanges ps = .ok tp) (hfs : parseRangeFilters ps = .ok fs)
    (hd : forwardTrack maxFilterRanges tp trackProps largest hasLargest = some d)
    (hforward : d.forwardState = 1) (hloc : d.passesLocation ⟨group, o.objectID⟩ = true) :
    d.forwardDecision group o = .forward ↔ fs = [] ∨ ∃ f ∈ fs, ∀ f' ∈ fs,
      f'.setID = f.setID → f'.matchObject o (searchable o.props) = true := by
  obtain ⟨hstate, hrf⟩ := forwardTrack_eq hps hd
  rw [rangeFiltersFromParams, hfs] at hrf
  rw [d.forwardDecision_eq_forward, DownstreamSub.takes, hstate, hforward]
  rcases RangeFilterSet.holds_build hrf with ⟨hnil, hnone⟩ | ⟨hne, s, hsome, hof⟩
  · simp [hnone, hnil, hloc]
  · simp [hsome, hne, hloc, hof.matchesObject_iff hne]

/-- **Verdict and law agree exactly where the track filters decide.** -/
theorem forwardDecision_selects_iff {maxFilterRanges : UInt64} {ps : Parameters}
    {tp : TracksParams} {fs : List RangeFilter} {trackProps : List UInt8} {largest : Location}
    {hasLargest : Bool} {d : DownstreamSub} {group : UInt64} {o : ObjectAttrs}
    (hps : resolveTracksParams maxFilterRanges ps = .ok tp) (hfs : parseRangeFilters ps = .ok fs)
    (hd : forwardTrack maxFilterRanges tp trackProps largest hasLargest = some d)
    (hforward : d.forwardState = 1) (hloc : d.passesLocation ⟨group, o.objectID⟩ = true) :
    (d.forwardDecision group o = .forward ↔ SetSelects fs o trackProps) ↔
      TrackFiltersDecide fs o trackProps := by
  have hverdict := forwardDecision_eq_forward_iff hps hfs hd hforward hloc
  have hlaw : SetSelects fs o trackProps → d.forwardDecision group o = .forward := by
    rw [hverdict]
    refine Or.imp_right ?_
    intro ⟨f, hf, hall⟩
    exact ⟨f, hf, fun f' hf' hset => ((f'.selects_iff o trackProps).mp (hall f' hf' hset)).1⟩
  constructor
  · intro hagree f hf htype hfails
    by_contra hno
    rw [not_or] at hno
    apply hno.2
    rw [← hagree, hverdict]
    refine .inr ⟨f, hf, ?_⟩
    intro f' hf' hset
    by_cases ht : f'.type = .trackProperty
    · exact matchObject_trackProperty ht o _
    · rw [← selects_of_ne_trackProperty ht o trackProps]
      by_contra hfails'
      exact hno.1 ⟨f', hf', hset, ht, hfails'⟩
  · intro hdecide
    refine ⟨?_, hlaw⟩
    intro hfwd
    rcases hverdict.mp hfwd with hnil | ⟨f, hf, hall⟩
    · exact .inl hnil
    -- either the set's track filters are satisfied too, or one of them is not
    by_cases htrack : ∀ f' ∈ fs, f'.setID = f.setID → f'.Selects o trackProps
    · exact .inr ⟨f, hf, htrack⟩
    · push Not at htrack
      obtain ⟨f', hf', hset, hfails⟩ := htrack
      have htype : f'.type = .trackProperty := by
        by_contra ht
        exact hfails ((selects_of_ne_trackProperty ht o trackProps).mpr (hall f' hf' hset))
      rcases hdecide f' hf' htype hfails with ⟨f'', hf'', hset', ht, hfails'⟩ | hsel
      · refine absurd ?_ hfails'
        exact (selects_of_ne_trackProperty ht o trackProps).mpr
          (hall f'' hf'' (hset'.trans hset))
      · exact hsel

/-- Set 0: track Property 2 is 1, and the Object ID is 9. Set 1: track Property 2 is 5. -/
def mixedSets : Parameters :=
  [{ type := 0x29, bytes := [0, 2, 1, 0] }, { type := 0x26, bytes := [0, 9, 0] },
    { type := 0x29, bytes := [1, 2, 5, 0] }]

/-- A track whose Property 2 is 1. -/
def mixedTrack : List UInt8 := [2, 1]

/-- The filters of `mixedSets`. -/
def mixedFilters : List RangeFilter :=
  [⟨.trackProperty, 0, 2, [⟨1, 1, false⟩]⟩, ⟨.objectID, 0, 0, [⟨9, 9, false⟩]⟩,
    ⟨.trackProperty, 1, 2, [⟨5, 5, false⟩]⟩]

/-- The subscription a holder of `mixedSets` gets for `mixedTrack`. -/
def mixedSub : Option DownstreamSub :=
  match resolveTracksParams 8 mixedSets with
  | .ok tp => forwardTrack 8 tp mixedTrack {} false
  | .error _ => none

theorem forwardDecision_selects_mixed :
    ∃ d, mixedSub = some d ∧ d.forwardDecision 0 ⟨0, 9, 128, []⟩ = .forward ∧
      SetSelects mixedFilters ⟨0, 9, 128, []⟩ mixedTrack ∧
      (d.forwardDecision 0 ⟨0, 9, 128, []⟩ = .forward ↔
        SetSelects mixedFilters ⟨0, 9, 128, []⟩ mixedTrack) := by
  have hsub : mixedSub.map (fun d => (d.forwardState, d.passesLocation ⟨0, 9⟩,
      d.forwardDecision 0 ⟨0, 9, 128, []⟩)) = some (1, true, .forward) := by decide +kernel
  obtain ⟨d, hd, hvalues⟩ := Option.map_eq_some_iff.mp hsub
  simp only [Prod.mk.injEq] at hvalues
  obtain ⟨hforward, hloc, hverdict⟩ := hvalues
  have hselects : SetSelects mixedFilters ⟨0, 9, 128, []⟩ mixedTrack := by decide +kernel
  refine ⟨d, hd, hverdict, hselects, ?_⟩
  unfold mixedSub at hd
  split at hd
  · next tp htp =>
    exact (forwardDecision_selects_iff htp (by decide +kernel) hd hforward hloc).mpr
      (by decide +kernel)
  · cases hd

/-- Object 5 fails set 0 and the track fails set 1, and the Object is forwarded. -/
theorem object_of_other_set :
    mixedSub.map (·.forwardDecision 0 ⟨0, 5, 128, []⟩) = some .forward ∧
      parseRangeFilters mixedSets = .ok mixedFilters ∧
      ¬ SetSelects mixedFilters ⟨0, 5, 128, []⟩ mixedTrack := by
  decide +kernel

end MoqGo.Relay
