import MoqGo.Relay.Fetch.Upstream

/-!
# Stitching a FETCH response (`pkg/relay/handler_fetch.go`, `fetch_ranges.go`)

`stitchedFetchObjects` answers a FETCH from the cache, from Objects that arrive while it waits,
and from an upstream for what the relay does not know. What it reads on the way is in
`FetchState`: the cache as it was read, what the wait handed over, the ledger's known absent
ranges. `fetchLists` are the three lists it passes to `fetchElements`.

**`stitched_inOrder_iff`**: the unknown and timed-out ranges are disjoint and the response is
strictly in stream order, **unless** an End of Timed-Out Range marker of a complete upstream
response covers Locations past FETCH_OK's End Location. In Descending order it can, because the
marker's run starts at the span's highest Group, whose Locations are past a capped End Location;
the same Locations are then in the unknown tail as well, and the response carries a marker of
each kind at one Location.
-/

namespace MoqGo.Relay

open Message Session List

/-! ## What the relay knows -/

/-- How far an Object's status speaks: to the end of its Group or of the Track. -/
def knownThrough (o : CachedObject) : Location :=
  if o.status = objectStatusEndOfGroup then ⟨o.groupID, maxUint64⟩
  else if o.status = objectStatusEndOfTrack then ⟨maxUint64, maxUint64⟩
  else o.loc

/-- `knownFromCache`, what one Object establishes. -/
def knownFromObject (o : CachedObject) : List LocRange :=
  let gaps := objectPriorGaps o.properties
  [⟨o.loc, knownThrough o⟩] ++
    (if gaps.hasObject && decide (0 < gaps.object) then
      [⟨⟨o.groupID, o.objectID - gaps.object⟩, ⟨o.groupID, o.objectID - 1⟩⟩] else []) ++
    (if gaps.hasGroup && decide (0 < gaps.group) then
      [⟨⟨o.groupID - gaps.group, 0⟩, ⟨o.groupID - 1, maxUint64⟩⟩] else [])

/-- `knownFromCache`. -/
def knownFromCache (objs : List CachedObject) : List LocRange := objs.flatMap knownFromObject

/-- `unknownIn`: `knownAbsent` is the ledger's. -/
def unknownIn (knownAbsent : List LocRange) (objs : List CachedObject) (start stop : Location)
    (accounted : List LocRange) : List LocRange :=
  uncovered start stop (knownFromCache objs ++ knownAbsent ++ accounted)

/-- `locRanges`. -/
def locRanges (locs : List Location) : List LocRange :=
  (locs.insertionSort fun a b => a.compare b ≠ .gt).map fun l => ⟨l, l⟩

/-- `holds`. -/
def holds (objs : List CachedObject) (loc : Location) : Bool :=
  objs.any fun o => o.groupID == loc.group && o.objectID == loc.object

/-- `notHeld`. -/
def notHeld (locs : List Location) (objs : List CachedObject) : List Location :=
  locs.filter fun l => !holds objs l

/-- `dropHeld`. -/
def dropHeld (rs : List LocRange) (objs : List CachedObject) : List LocRange :=
  rs.filter fun r => !holds objs r.lo

/-- `handedLive`. -/
def handedLive (objs : List CachedObject) : List CachedObject :=
  objs.map fun o =>
    if o.hasMaxCacheDuration && o.maxCacheDuration == 0 then { o with hasMaxCacheDuration := false }
    else o

/-- `withObjects`. -/
def withObjects (objs more : List CachedObject) : List CachedObject :=
  more.foldl (fun objs m => if holds objs m.loc then objs else objs ++ [m]) objs

/-! ## The response -/

/-- What a wait for Objects still arriving found: those handed over as they completed, the
    Locations still arriving at the end, and the cache as it was read again. -/
structure Waited where
  handed : List CachedObject
  still : List Location
  cache : ObjectCache
  now : Nat

/-- What `stitchedFetchObjects` reads. -/
structure FetchState where
  cache : ObjectCache
  now : Nat
  /-- `WaitInFlight`: nothing in the range was arriving, or what the wait found. -/
  wait : Option Waited
  knownAbsent : List LocRange

/-- A FETCH: the range, the order, the FILL_TIMEOUT budget, and what is left of it when the
    upstream is asked. -/
structure FetchRequest where
  start : Location
  stop : Location
  order : GroupOrder
  fillTimeout : Nat
  remaining : Nat

/-- The Objects the relay has. With no budget nothing is waited for, so nothing is handed over. -/
def FetchState.cached (st : FetchState) (req : FetchRequest) : List CachedObject :=
  match st.wait with
  | none => st.cache.getRange st.now req.start req.stop .ascending
  | some w =>
    withObjects (w.cache.getRange w.now req.start req.stop .ascending)
      (handedLive (if 0 < req.fillTimeout then w.handed else []))

/-- The Locations still arriving. -/
def FetchState.arriving (st : FetchState) (req : FetchRequest) : List LocRange :=
  match st.wait with
  | none => []
  | some w => locRanges (notHeld w.still (st.cached req))

/-- All that says what a Location of the range is: cached Objects, the ledger, and what is still
    arriving. -/
def FetchState.known (st : FetchState) (req : FetchRequest) : List LocRange :=
  knownFromCache (st.cached req) ++ st.knownAbsent ++ st.arriving req

def FetchRequest.budget (req : FetchRequest) : Nat :=
  if 0 < req.fillTimeout then req.remaining else 0

/-- What the relay does not know of the range. -/
def FetchState.unknown (st : FetchState) (req : FetchRequest) : List LocRange :=
  unknownIn st.knownAbsent (st.cached req) req.start req.stop (st.arriving req)

def spanOf (rs : List LocRange) : LocRange :=
  ⟨(rs.head?.getD ⟨{}, {}⟩).lo, (rs.getLast?.getD ⟨{}, {}⟩).hi⟩

/-- The lists passed to `fetchElements`. -/
structure FetchLists where
  objs : List CachedObject
  unknown : List LocRange := []
  timedOut : List LocRange := []

/-- `stitchedFetchObjects`' merge of an upstream's answer with what the relay has. -/
def mergeAnswer (cached : List CachedObject) (unknown arriving : List LocRange)
    (ans : UpstreamAnswer) : FetchLists :=
  let merged := cached ++ ans.objs.filter fun o => !holds cached o.loc
  { objs := merged
    unknown := intersect ans.unknown unknown
    timedOut := intersect ans.timedOut unknown ++ dropHeld arriving merged }

/-- `stitchedFetchObjects`' `switch` over how the upstream answered. -/
def answerLists (cached : List CachedObject) (unknown arriving : List LocRange)
    (ans : UpstreamAnswer) : FetchLists :=
  match ans.failed with
  | .unknown => { objs := cached, unknown := unknown, timedOut := arriving }
  | .timedOut => { objs := cached, timedOut := unknown ++ arriving }
  | .answered => mergeAnswer cached unknown arriving ans

/-- `stitchedFetchObjects`, up to its calls of `fetchElements`. `upstream` is what
    `pickFetchUpstream`'s upstream replies, if there is one. -/
def fetchLists (st : FetchState) (req : FetchRequest) (upstream : Option UpstreamReply) :
    Except Refusal FetchLists :=
  let cached := st.cached req
  let arriving := st.arriving req
  let unknown := st.unknown req
  if unknown = [] then .ok { objs := cached, timedOut := arriving }
  else
    match upstream with
    | none => .ok { objs := cached, unknown := unknown, timedOut := arriving }
    | some reply =>
      match fetchUpstreamRange reply (spanOf unknown) req.order req.budget with
      | .error refusal => .error refusal
      | .ok ans => .ok (answerLists cached unknown arriving ans)

/-- `stitchedFetchObjects`. -/
def stitchedFetchObjects (st : FetchState) (req : FetchRequest) (upstream : Option UpstreamReply) :
    Except Refusal (List CachedObject) :=
  (fetchLists st req upstream).map fun l => fetchElements l.objs l.unknown l.timedOut req.order

/-! ## What the lists cover -/

variable {objs cached : List CachedObject} {l : Location} {st : FetchState} {req : FetchRequest}
  {unknown timedOut arriving : List LocRange} {ans : UpstreamAnswer}

theorem holds_iff : holds objs l = true ↔ ∃ o ∈ objs, o.loc = l := by
  simp only [holds, any_eq_true, Bool.and_eq_true, beq_iff_eq]
  constructor
  · intro h
    obtain ⟨o, ho, hg, hid⟩ := h
    exact ⟨o, ho, Location.ext hg hid⟩
  · intro h
    obtain ⟨o, ho, rfl⟩ := h
    exact ⟨o, ho, rfl, rfl⟩

theorem withObjects_nodup {more : List CachedObject} :
    ∀ {objs : List CachedObject}, (objs.map (·.loc)).Nodup →
      ((withObjects objs more).map (·.loc)).Nodup := by
  induction more with
  | nil => exact fun h => h
  | cons m more ih =>
    intro objs h
    apply ih
    dsimp only
    split_ifs with hheld
    · exact h
    · have hnew : m.loc ∉ objs.map (·.loc) := by
        intro hmem
        obtain ⟨o, ho, heq⟩ := mem_map.mp hmem
        exact hheld (holds_iff.mpr ⟨o, ho, heq⟩)
      rw [map_append, map_singleton]
      exact nodup_append.mpr ⟨h, nodup_singleton _, fun a ha b hb heq => by
        rw [mem_singleton.mp hb] at heq
        exact hnew (heq ▸ ha)⟩

/-- The caches a FETCH reads have exact indexes. -/
structure FetchState.Indexed (st : FetchState) : Prop where
  cache : st.cache.Indexed
  wait : ∀ w ∈ st.wait, w.cache.Indexed

theorem FetchState.Indexed.cached_nodup (h : st.Indexed) (req : FetchRequest) :
    ((st.cached req).map (·.loc)).Nodup := by
  unfold FetchState.cached
  cases hw : st.wait with
  | none => exact h.cache.getRange_nodup ..
  | some w => exact withObjects_nodup ((h.wait w hw).getRange_nodup ..)

theorem covers_knownFromCache {o : CachedObject} (h : o ∈ objs) :
    Covers (knownFromCache objs) o.loc := by
  have hhi := le_maxUint64 o.objectID
  have hg := le_maxUint64 o.groupID
  refine ⟨⟨o.loc, knownThrough o⟩, mem_flatMap.mpr ⟨o, h, ?_⟩, le_rfl, ?_⟩
  · exact mem_append_left _ (mem_append_left _ mem_cons_self)
  · unfold knownThrough Location.rank CachedObject.loc
    split_ifs <;> simp only <;> omega

theorem mem_arriving {r : LocRange} (h : r ∈ st.arriving req) :
    r.lo = r.hi ∧ holds (st.cached req) r.lo = false := by
  unfold FetchState.arriving at h
  cases hw : st.wait with
  | none =>
    rw [hw] at h
    cases h
  | some w =>
    rw [hw] at h
    obtain ⟨l, hl, rfl⟩ := mem_map.mp h
    have hl := (perm_insertionSort _ _).mem_iff.mp hl
    exact ⟨rfl, by simpa using (mem_filter.mp hl).2⟩

theorem Covers.eq_of_singles {rs : List LocRange} (hrs : ∀ r ∈ rs, r.lo = r.hi) (h : Covers rs l) :
    ∃ r ∈ rs, r.lo = l := by
  obtain ⟨r, hr, hlo, hhi⟩ := h
  rw [← hrs r hr] at hhi
  exact ⟨r, hr, Location.rank_inj.mp (Nat.le_antisymm hlo hhi)⟩

theorem covers_unknown : Covers (st.unknown req) l ↔
      req.start.rank ≤ l.rank ∧ l.rank ≤ req.stop.rank ∧ ¬ Covers (st.known req) l :=
  covers_uncovered

/-- **Before an upstream is asked** the lists are as `fetchElements` wants them. -/
theorem placeable_cached (hst : st.Indexed) (hrange : req.start.rank ≤ req.stop.rank) :
    Placeable (st.cached req) (st.unknown req) (st.arriving req) where
  nodup := hst.cached_nodup req
  unmarked o ho := by
    constructor
    · intro h
      refine (covers_unknown.mp h).2.2 ?_
      simp only [FetchState.known, covers_append]
      exact .inl (.inl (covers_knownFromCache ho))
    · intro h
      obtain ⟨r, hr, heq⟩ := h.eq_of_singles fun r hr => (mem_arriving hr).1
      have hheld : holds (st.cached req) r.lo = true := holds_iff.mpr ⟨o, ho, heq.symm⟩
      rw [(mem_arriving hr).2] at hheld
      cases hheld
  proper r hr := by
    rcases mem_append.mp hr with hr | hr
    · exact (stretches_uncovered hrange _).proper r hr
    · unfold LocRange.Proper
      rw [(mem_arriving hr).1]
  disjoint l h := by
    have hknown := (covers_unknown.mp h).2.2
    simp only [FetchState.known, covers_append, not_or] at hknown
    exact hknown.2

theorem Placeable.dropUnknown (h : Placeable objs unknown timedOut) :
    Placeable objs [] timedOut where
  nodup := h.nodup
  unmarked o ho := ⟨not_covers_nil _, (h.unmarked o ho).2⟩
  proper r hr := h.proper r (List.mem_append_right _ hr)
  disjoint l hl := absurd hl (not_covers_nil l)

theorem Placeable.allTimedOut (h : Placeable objs unknown timedOut) :
    Placeable objs [] (unknown ++ timedOut) where
  nodup := h.nodup
  unmarked o ho := ⟨not_covers_nil _, fun hc => (covers_append.mp hc).elim
    (h.unmarked o ho).1 (h.unmarked o ho).2⟩
  proper r hr := h.proper r hr
  disjoint l hl := absurd hl (not_covers_nil l)

theorem Stretches.has_spanOf {start stop : Location} {rs : List LocRange}
    (h : Stretches start stop rs) (hl : Covers rs l) : (spanOf rs).Has l := by
  obtain ⟨r, hr, hlo, hhi⟩ := hl
  constructor
  · refine le_trans ?_ hlo
    cases rs with
    | nil => cases hr
    | cons a rest =>
      rcases mem_cons.mp hr with rfl | hr
      · exact le_rfl
      · exact ((pairwise_cons.mp h.sorted).1 r hr).1
  · refine le_trans hhi ?_
    obtain rfl | ⟨rest, a, rfl⟩ := eq_nil_or_concat rs
    · cases hr
    · have hsorted := h.sorted
      rw [concat_eq_append] at hr hsorted
      simp only [spanOf, concat_eq_append, List.getLast?_append, List.getLast?_singleton,
        Option.some_or, Option.getD_some]
      rcases mem_append.mp hr with hr | hr
      · exact ((pairwise_append.mp hsorted).2.2 r hr a (mem_singleton_self a)).2
      · rw [mem_singleton.mp hr]

/-- **Merging an answer**: what it needs is that the answer does not mark a Location the relay
    asked about both ways. -/
theorem placeable_merge {span : LocRange} (h : Placeable cached unknown arriving)
    (hsingle : ∀ r ∈ arriving, r.lo = r.hi) (hans : ans.Sound span)
    (hdisjoint : ∀ l, Covers unknown l → Covers ans.unknown l → ¬ Covers ans.timedOut l) :
    Placeable (mergeAnswer cached unknown arriving ans).objs
      (mergeAnswer cached unknown arriving ans).unknown
      (mergeAnswer cached unknown arriving ans).timedOut where
  nodup := by
    simp only [mergeAnswer, map_append]
    refine nodup_append.mpr ⟨h.nodup, hans.nodup.sublist (filter_sublist.map _), ?_⟩
    intro a ha b hb heq
    obtain ⟨o, ho, rfl⟩ := mem_map.mp ha
    obtain ⟨o', ho', rfl⟩ := mem_map.mp hb
    have hheld := (mem_filter.mp ho').2
    rw [holds_iff.mpr ⟨o, ho, heq⟩] at hheld
    cases hheld
  unmarked o ho := by
    have hdrop : ¬ Covers (dropHeld arriving (mergeAnswer cached unknown arriving ans).objs)
        o.loc := by
      intro hc
      obtain ⟨r, hr, heq⟩ := hc.eq_of_singles fun r hr => hsingle r (mem_of_mem_filter hr)
      have hheld := (mem_filter.mp hr).2
      rw [holds_iff.mpr ⟨o, ho, heq.symm⟩] at hheld
      cases hheld
    have hmarked : ¬ (Covers unknown o.loc ∧
        (Covers ans.unknown o.loc ∨ Covers ans.timedOut o.loc)) := by
      intro hc
      rcases mem_append.mp ho with ho | ho
      · exact (h.unmarked o ho).1 hc.1
      · have ho := mem_of_mem_filter ho
        exact hc.2.elim (hans.unmarked o ho .unknown) (hans.unmarked o ho .timedOut)
    constructor
    · intro hc
      have hc := covers_intersect.mp hc
      exact hmarked ⟨hc.2, .inl hc.1⟩
    · intro hc
      rcases covers_append.mp hc with hc | hc
      · have hc := covers_intersect.mp hc
        exact hmarked ⟨hc.2, .inr hc.1⟩
      · exact hdrop hc
  proper r hr := by
    rcases mem_append.mp hr with hr | hr
    · exact proper_intersect hr
    · rcases mem_append.mp hr with hr | hr
      · exact proper_intersect hr
      · exact h.proper r (mem_append_right _ (mem_of_mem_filter hr))
  disjoint l hl hc := by
    have hl := covers_intersect.mp hl
    rcases covers_append.mp hc with hc | hc
    · exact hdisjoint l hl.2 hl.1 (covers_intersect.mp hc).1
    · obtain ⟨r, hr, hhas⟩ := hc
      exact h.disjoint l hl.2 ⟨r, mem_of_mem_filter hr, hhas⟩

/-! ## The response is in order -/

/-- The lists keep unknown and timed-out Locations apart, and the elements made of them are
    strictly in stream order. -/
def FetchLists.InOrder (lists : FetchLists) (order : GroupOrder) : Prop :=
  (∀ l, Covers lists.unknown l → ¬ Covers lists.timedOut l) ∧
    (fetchElements lists.objs lists.unknown lists.timedOut order).Pairwise fun a b =>
      streamCompare a.loc b.loc order = .lt

theorem Placeable.inOrder {lists : FetchLists} (order : GroupOrder)
    (h : Placeable lists.objs lists.unknown lists.timedOut) : lists.InOrder order :=
  ⟨h.disjoint, (fetchElements_pairwise order h).imp fun hlt => streamCompare_eq_lt.mpr hlt⟩

/-- The upstream's complete response marks as timed out a Location past its own End Location that
    the relay does not know: the first element at or after it, in stream order, is an End of
    Timed-Out Range marker. -/
def FetchState.TimedOutPastEnd (st : FetchState) (req : FetchRequest)
    (upstream : Option UpstreamReply) : Prop :=
  ∃ endLocation maxAge elems, upstream = some (.response endLocation maxAge elems .fin) ∧
    0 < req.budget ∧ Accepted endLocation (spanOf (st.unknown req)) req.order none elems ∧
    ∃ l, Covers (st.unknown req) l ∧ endLocation.rank < l.rank ∧
      (decides req.order elems l).bind mark = some .timedOut

theorem covers_finish {endLocation : Location} {span : LocRange} (hl : span.Has l) :
    Covers (ans.finish endLocation span).unknown l ↔
      Covers ans.unknown l ∨ endLocation.rank < l.rank := by
  have hhi := hl.2
  unfold UpstreamAnswer.finish
  split_ifs with hcap
  · simp [has_tail hcap, hhi]
  · have hle := Location.not_less_iff.mp (Bool.eq_false_iff.mpr hcap)
    have hnot : ¬ endLocation.rank < l.rank := by omega
    simp [hnot]

@[simp] theorem finish_timedOut (ans : UpstreamAnswer) (endLocation : Location) (span : LocRange) :
    (ans.finish endLocation span).timedOut = ans.timedOut := by
  unfold UpstreamAnswer.finish
  split_ifs <;> rfl

@[simp] theorem finish_failed (ans : UpstreamAnswer) (endLocation : Location) (span : LocRange) :
    (ans.finish endLocation span).failed = ans.failed := by
  unfold UpstreamAnswer.finish
  split_ifs <;> rfl

theorem answerLists_answered (h : ans.failed = .answered) :
    answerLists cached unknown arriving ans = mergeAnswer cached unknown arriving ans := by
  rw [answerLists, h]

section

variable {st : FetchState} {req : FetchRequest} {endLocation : Location} {maxAge : Option Nat}
  {elems : List (DecodedFetchObject × Nat)} {ans : UpstreamAnswer}

/-- A cut-off answer keeps the two kinds apart: what it adds is in neither. -/
theorem cutOff_disjoint {span : LocRange}
    (h : readElements endLocation maxAge span req.order {} none elems = some ans) {l : Location}
    (hl : span.Has l) (hunknown : Covers (ans.cutOff span).unknown l) :
    ¬ Covers (ans.cutOff span).timedOut l := by
  have hread := (covers_read h hl .unknown).mp hunknown
  simp only [UpstreamAnswer.cutOff, covers_append, covers_uncovered]
  intro hc
  rcases hc with hc | hc
  · have htimedOut := (covers_read h hl .timedOut).mp hc
    rw [hread] at htimedOut
    cases htimedOut
  · exact hc.2.2 (.inl (.inl hunknown))

/-- **Under a clean FIN**, the merged lists are in order exactly if no timed-out marker reaches
    past the End Location. -/
theorem merge_finish_inOrder_iff (hst : st.Indexed) (hrange : req.start.rank ≤ req.stop.rank)
    (h : readElements endLocation maxAge (spanOf (st.unknown req)) req.order {} none elems =
      some ans) :
    (mergeAnswer (st.cached req) (st.unknown req) (st.arriving req)
        (ans.finish endLocation (spanOf (st.unknown req)))).InOrder req.order ↔
      ¬ ∃ l, Covers (st.unknown req) l ∧ endLocation.rank < l.rank ∧
        (decides req.order elems l).bind mark = some .timedOut := by
  have hspan {l : Location} (hl : Covers (st.unknown req) l) : (spanOf (st.unknown req)).Has l :=
    (stretches_uncovered hrange _).has_spanOf hl
  have htimedOut {l : Location} (hl : Covers (st.unknown req) l) :
      Covers ans.timedOut l ↔ (decides req.order elems l).bind mark = some .timedOut :=
    covers_read h (hspan hl) .timedOut
  constructor
  · intro hin hbad
    obtain ⟨l, hl, hpast, hmark⟩ := hbad
    refine hin.1 l (covers_intersect.mpr ⟨(covers_finish (hspan hl)).mpr (.inr hpast), hl⟩) ?_
    refine covers_append.mpr (.inl (covers_intersect.mpr ⟨?_, hl⟩))
    rw [finish_timedOut]
    exact (htimedOut hl).mpr hmark
  · intro hgood
    refine Placeable.inOrder req.order (placeable_merge (placeable_cached hst hrange)
      (fun r hr => (mem_arriving hr).1) (sound_finish h) ?_)
    intro l hl hunknown hc
    rw [finish_timedOut, htimedOut hl] at hc
    rcases (covers_finish (hspan hl)).mp hunknown with hunknown | hpast
    · have hread : (decides req.order elems l).bind mark = some .unknown :=
        (covers_read h (hspan hl) .unknown).mp hunknown
      rw [hread] at hc
      cases hc
    · exact hgood ⟨l, hl, hpast, hc⟩

variable {reply : UpstreamReply}

theorem reply_inOrder_iff (hst : st.Indexed) (hrange : req.start.rank ≤ req.stop.rank)
    (hanswer : fetchUpstreamRange reply (spanOf (st.unknown req)) req.order req.budget = .ok ans) :
    (answerLists (st.cached req) (st.unknown req) (st.arriving req) ans).InOrder req.order ↔
      ¬ st.TimedOutPastEnd req (some reply) := by
  have hcached := placeable_cached hst hrange
  -- a response that is not complete, or not accepted, is not the one that goes wrong
  have hnot (hreply : ∀ endLocation maxAge elems,
      reply = .response endLocation maxAge elems .fin → 0 < req.budget →
      ¬ Accepted endLocation (spanOf (st.unknown req)) req.order none elems) :
      ¬ st.TimedOutPastEnd req (some reply) := by
    intro hbad
    obtain ⟨endLocation, maxAge, elems, heq, hbudget, hacc, -⟩ := hbad
    exact hreply endLocation maxAge elems (Option.some.inj heq) hbudget hacc
  unfold fetchUpstreamRange at hanswer
  split_ifs at hanswer with hbudget
  · cases hanswer
    exact iff_of_true (Placeable.inOrder req.order hcached.allTimedOut)
      (hnot fun _ _ _ _ hpos => absurd hpos (by omega))
  · cases reply with
    | propertiesRefused => cases hanswer
    | timedOut =>
      cases hanswer
      exact iff_of_true (Placeable.inOrder req.order hcached.allTimedOut) (hnot nofun)
    | refused =>
      cases hanswer
      exact iff_of_true (Placeable.inOrder req.order hcached) (hnot nofun)
    | response endLocation maxAge elems ending =>
      dsimp only at hanswer
      cases hread : readElements endLocation maxAge (spanOf (st.unknown req)) req.order {} none
          elems with
      | none =>
        rw [hread] at hanswer
        cases hanswer
        refine iff_of_true (Placeable.inOrder req.order hcached) (hnot ?_)
        intro endLocation' maxAge' elems' heq _ hacc
        cases heq
        have hsome : (readElements endLocation maxAge (spanOf (st.unknown req)) req.order {} none
            elems).isSome := readElements_isSome.mpr hacc
        rw [hread] at hsome
        cases hsome
      | some read =>
        rw [hread] at hanswer
        have hanswered : read.failed = .answered := (readElements_objs hread).2
        cases ending with
        | malformedTrack err => cases hanswer
        | failed =>
          cases hanswer
          exact iff_of_true (Placeable.inOrder req.order hcached) (hnot nofun)
        | timedOut =>
          cases hanswer
          have hcut : (read.cutOff (spanOf (st.unknown req))).failed = .answered := hanswered
          rw [answerLists_answered hcut]
          refine iff_of_true (Placeable.inOrder req.order (placeable_merge hcached
            (fun r hr => (mem_arriving hr).1) (sound_cutOff hread) ?_)) (hnot nofun)
          intro l hl
          exact cutOff_disjoint hread ((stretches_uncovered hrange _).has_spanOf hl)
        | fin =>
          cases hanswer
          rw [answerLists_answered ((finish_failed ..).trans hanswered),
            merge_finish_inOrder_iff hst hrange hread, not_iff_not]
          have hacc : Accepted endLocation (spanOf (st.unknown req)) req.order none elems :=
            readElements_isSome.mp (Option.isSome_iff_exists.mpr ⟨read, hread⟩)
          constructor
          · intro hbad
            exact ⟨endLocation, maxAge, elems, rfl, Nat.pos_of_ne_zero hbudget, hacc, hbad⟩
          · intro hbad
            obtain ⟨_, _, _, heq, -, -, hbad⟩ := hbad
            cases heq
            exact hbad

end

/-- **The order of a FETCH response.** Whatever the relay holds and whatever the upstream replies,
    the lists are disjoint and the response strictly in stream order, exactly if no timed-out
    marker of a complete upstream response reaches past its End Location. -/
theorem stitched_inOrder_iff {st : FetchState} {req : FetchRequest}
    {upstream : Option UpstreamReply} {lists : FetchLists} (hst : st.Indexed)
    (hrange : req.start.rank ≤ req.stop.rank) (h : fetchLists st req upstream = .ok lists) :
    ((∀ l, Covers lists.unknown l → ¬ Covers lists.timedOut l) ∧
        ∃ elems, stitchedFetchObjects st req upstream = .ok elems ∧
          elems.Pairwise fun a b => streamCompare a.loc b.loc req.order = .lt) ↔
      ¬ st.TimedOutPastEnd req upstream := by
  have helems : stitchedFetchObjects st req upstream =
      .ok (fetchElements lists.objs lists.unknown lists.timedOut req.order) := by
    rw [stitchedFetchObjects, h]
    rfl
  simp only [helems, Except.ok.injEq, exists_eq_left']
  have hcached := placeable_cached hst hrange
  unfold fetchLists at h
  dsimp only at h
  split_ifs at h with hempty
  · cases h
    refine iff_of_true (Placeable.inOrder req.order hcached.dropUnknown) ?_
    intro hbad
    obtain ⟨_, _, _, -, -, -, l, hl, -⟩ := hbad
    rw [hempty] at hl
    exact not_covers_nil l hl
  · cases upstream with
    | none =>
      cases h
      refine iff_of_true (Placeable.inOrder req.order hcached) ?_
      intro hbad
      obtain ⟨_, _, _, hreply, -⟩ := hbad
      cases hreply
    | some reply =>
      dsimp only at h
      cases hanswer : fetchUpstreamRange reply (spanOf (st.unknown req)) req.order req.budget with
      | error refusal =>
        rw [hanswer] at h
        cases h
      | ok ans =>
        rw [hanswer] at h
        cases h
        exact reply_inOrder_iff hst hrange hanswer

/-- A relay that holds one Object, at `{1,0}`, and a FETCH of `{0,0}` through `{2,5}` in Descending
    order that an upstream answers with an End of Timed-Out Range marker at `{1,3}` and a FIN. -/
def oneCached : FetchState := ⟨(ObjectCache.new 1 0).put 0 { groupID := 1 }, 0, none, []⟩
def descendingFetch : FetchRequest := ⟨⟨0, 0⟩, ⟨2, 5⟩, .descending, 10, 10⟩
def timedOutAt (endLocation : Location) : Option UpstreamReply :=
  some (.response endLocation none
    [({ groupID := 1, objectID := 3, endOfTimedOutRange := true }, 1)] .fin)

theorem stitched_inOrder_descending :
    (fetchLists oneCached descendingFetch (timedOutAt ⟨2, 5⟩)).toOption.isSome ∧
      ∀ lists, fetchLists oneCached descendingFetch (timedOutAt ⟨2, 5⟩) = .ok lists →
        (∀ l, Covers lists.unknown l → ¬ Covers lists.timedOut l) ∧
          ∃ elems, stitchedFetchObjects oneCached descendingFetch (timedOutAt ⟨2, 5⟩) = .ok elems ∧
            elems.Pairwise fun a b => streamCompare a.loc b.loc .descending = .lt := by
  refine ⟨by decide +kernel, ?_⟩
  intro lists h
  have hindexed : oneCached.Indexed :=
    ⟨(ObjectCache.indexed_new 1 0).put 0 _, fun w hw => nomatch hw⟩
  refine (stitched_inOrder_iff hindexed (by decide +kernel) h).mpr ?_
  intro hbad
  obtain ⟨_, _, _, heq, -, -, l, hl, hpast, -⟩ := hbad
  cases heq
  exact absurd (covers_unknown.mp hl).2.1 (Nat.not_le.mpr hpast)

/-- With FETCH_OK's End Location at `{1,3}` the marker there covers `{2,0}` through `{2,5}` too,
    which the unknown tail past `{1,3}` holds as well: the response has two markers at `{2,5}`. -/
theorem two_markers_at_one_location :
    (fetchLists oneCached descendingFetch (timedOutAt ⟨1, 3⟩)).toOption.map
        (fun lists => (decide (Covers lists.unknown ⟨2, 5⟩),
          decide (Covers lists.timedOut ⟨2, 5⟩))) =
      some (true, true) ∧
    (stitchedFetchObjects oneCached descendingFetch (timedOutAt ⟨1, 3⟩)).toOption.map
        (·.map fun e => (e.loc, e.isRangeMarker, e.endOfTimedOutRange)) =
      some [(⟨2, 5⟩, true, false), (⟨2, 5⟩, true, true), (⟨1, 0⟩, false, false),
        (⟨1, 3⟩, true, true), (⟨1, maxUint64⟩, true, false)] := by
  decide +kernel

end MoqGo.Relay
