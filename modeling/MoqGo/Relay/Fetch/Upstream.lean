import MoqGo.Relay.Fetch.Elements
import MoqGo.Session.FetchStream

/-!
# The upstream's answer to a FETCH (`pkg/relay/handler_fetch.go`)

`fetchUpstreamRange` asks an upstream for the span of what the relay does not know and reads the
response into Objects and marked ranges. The response itself is an argument: the elements
`ReadDecoded` returns one after the other, with the time each was read, and how reading ended.

An End of Range marker covers the Locations between the element before it and its own **in stream
order**. So what a marker says of a Location `l` of the span is read off the first element at or
after `l` (`decides`), which is what makes the ranges of two markers disjoint.
-/

namespace MoqGo.Relay

open Message Session List Option UInt64

/-- How reading the response ended. -/
inductive ReadEnd
  | fin
  | malformedTrack (err : FetchStreamError)
  | timedOut
  | failed
deriving DecidableEq, Repr

/-- What the upstream makes of the FETCH, in the order `fetchUpstreamRange` finds out. -/
inductive UpstreamReply
  /-- `Session.Fetch` returned an error for the Track Properties of a FETCH_OK. -/
  | propertiesRefused
  /-- The budget ran out before a response stream arrived. -/
  | timedOut
  /-- Refused, or the response stream is gone. -/
  | refused
  /-- FETCH_OK with its End Location and MAX_CACHE_DURATION, and the response stream. -/
  | response (endLocation : Location) (maxAge : Option Nat)
      (elems : List (DecodedFetchObject × Nat)) (ending : ReadEnd)
deriving DecidableEq, Repr

/-- `upstreamFailure`. -/
inductive UpstreamFailure
  | answered
  | unknown
  | timedOut
deriving DecidableEq, Repr, Inhabited

/-- `upstreamAnswer`. -/
structure UpstreamAnswer where
  objs : List CachedObject := []
  unknown : List LocRange := []
  timedOut : List LocRange := []
  failed : UpstreamFailure := .answered
deriving DecidableEq, Repr, Inhabited

/-- Why the track must not be forwarded. -/
inductive Refusal
  | trackProperties
  | malformedTrack (err : FetchStreamError)
deriving DecidableEq, Repr

/-- `upstreamFetchElemOK`. -/
def upstreamFetchElemOK (loc : Location) (prev : Option Location) (span : LocRange)
    (order : GroupOrder) : Bool :=
  if loc.less span.lo || span.hi.less loc then false
  else
    match prev with
    | none => true
    | some prev => streamCompare prev loc order == .lt

/-- `streamCovered`'s `lo` and `hi`: a Group `g` of `span` carries the Objects between. -/
def spanLo (span : LocRange) (g : UInt64) : UInt64 :=
  if g = span.lo.group then span.lo.object else 0
def spanHi (span : LocRange) (g : UInt64) : UInt64 :=
  if g = span.hi.group then span.hi.object else maxUint64

/-- Where `streamCovered`'s coverage starts, in Descending order. -/
def coveredFrom (prev : Option Location) (span : LocRange) : Location :=
  match prev with
  | none => ⟨span.hi.group, spanLo span span.hi.group⟩
  | some prev =>
    if prev.object < spanHi span prev.group then ⟨prev.group, prev.object + 1⟩
    else ⟨prev.group - 1, spanLo span (prev.group - 1)⟩

/-- `streamCovered`: what an End of Range marker at `at'` covers. -/
def streamCovered (prev : Option Location) (at' : Location) (span : LocRange) (order : GroupOrder) :
    List LocRange :=
  match order with
  | .ascending =>
    [⟨match prev with
      | none => span.lo
      | some prev => (locSucc prev).getD {}, at'⟩]
  | .descending =>
    let start := coveredFrom prev span
    if start.group = at'.group then [⟨start, at'⟩]
    else
      [⟨⟨at'.group, spanLo span at'.group⟩, at'⟩] ++
        (if 1 < start.group - at'.group then
          [⟨⟨at'.group + 1, 0⟩, ⟨start.group - 1, maxUint64⟩⟩] else []) ++
        [⟨start, ⟨start.group, spanHi span start.group⟩⟩]

/-- The Object the relay makes of one of the response. -/
def stitchedObject (maxAge : Option Nat) (obj : DecodedFetchObject) (now : Nat) : CachedObject :=
  { groupID := obj.groupID
    objectID := obj.objectID
    subgroupID := obj.subgroupID
    publisherPriority := obj.publisherPriority
    forwardingPref := if obj.datagram then .datagram else .subgroup
    properties := obj.properties
    payload := obj.payload
    receivedAt := now
    maxCacheDuration := maxAge.getD 0
    hasMaxCacheDuration := maxAge.isSome
    stitched := true }

/-- The answer with one element more. -/
def UpstreamAnswer.add (ans : UpstreamAnswer) (maxAge : Option Nat) (prev : Option Location)
    (span : LocRange) (order : GroupOrder) (obj : DecodedFetchObject) (now : Nat) :
    UpstreamAnswer :=
  if obj.endOfUnknownRange then
    { ans with unknown := ans.unknown ++ streamCovered prev obj.loc span order }
  else if obj.endOfTimedOutRange then
    { ans with timedOut := ans.timedOut ++ streamCovered prev obj.loc span order }
  else if obj.endOfNonExistentRange then ans
  else { ans with objs := ans.objs ++ [stitchedObject maxAge obj now] }

/-- `fetchUpstreamRange`'s loop over the elements: `none` at one that is out of range or order. -/
def readElements (endLocation : Location) (maxAge : Option Nat) (span : LocRange)
    (order : GroupOrder) : UpstreamAnswer → Option Location → List (DecodedFetchObject × Nat) →
    Option UpstreamAnswer
  | ans, _, [] => some ans
  | ans, prev, (obj, now) :: rest =>
    if !upstreamFetchElemOK obj.loc prev span order || endLocation.less obj.loc then none
    else
      readElements endLocation maxAge span order (ans.add maxAge prev span order obj now)
        (some obj.loc) rest

/-- The Locations of `objs`, as single-Location ranges. -/
def objectRanges (objs : List CachedObject) : List LocRange := objs.map fun o => ⟨o.loc, o.loc⟩

/-- What a clean FIN adds: past a capped End Location nothing is known. -/
def UpstreamAnswer.finish (ans : UpstreamAnswer) (endLocation : Location) (span : LocRange) :
    UpstreamAnswer :=
  if endLocation.less span.hi then
    { ans with unknown := ans.unknown ++ [⟨(locSucc endLocation).getD {}, span.hi⟩] }
  else ans

/-- What a read that timed out adds: all of the span that was not sent or marked. -/
def UpstreamAnswer.cutOff (ans : UpstreamAnswer) (span : LocRange) : UpstreamAnswer :=
  { ans with
    timedOut := ans.timedOut ++
      uncovered span.lo span.hi (ans.unknown ++ ans.timedOut ++ objectRanges ans.objs) }

/-- `fetchUpstreamRange`. -/
def fetchUpstreamRange (reply : UpstreamReply) (span : LocRange) (order : GroupOrder)
    (fillTimeout : Nat) : Except Refusal UpstreamAnswer :=
  if fillTimeout = 0 then .ok { failed := .timedOut }
  else
    match reply with
    | .propertiesRefused => .error .trackProperties
    | .timedOut => .ok { failed := .timedOut }
    | .refused => .ok { failed := .unknown }
    | .response endLocation maxAge elems ending =>
      match readElements endLocation maxAge span order {} none elems with
      | none => .ok { failed := .unknown }
      | some ans =>
        match ending with
        | .fin => .ok (ans.finish endLocation span)
        | .malformedTrack err => .error (.malformedTrack err)
        | .timedOut => .ok (ans.cutOff span)
        | .failed => .ok { failed := .unknown }

/-! ## What a marker covers -/

variable {span : LocRange} {l at' : Location} {g : UInt64} {prev : Option Location}
  {order : GroupOrder}

theorem spanLo_le (h : span.Has l) (hg : g.toNat = l.group.toNat) :
    (spanLo span g).toNat ≤ l.object.toNat := by
  have h := (LocRange.has_iff.mp h).1
  unfold spanLo
  split_ifs with heq
  · rw [heq] at hg
    omega
  · exact Nat.zero_le _

theorem le_spanHi (h : span.Has l) (hg : g.toNat = l.group.toNat) :
    l.object.toNat ≤ (spanHi span g).toNat := by
  have h := (LocRange.has_iff.mp h).2
  unfold spanHi
  split_ifs with heq
  · rw [heq] at hg
    omega
  · exact le_maxUint64 _

/-- In Descending order the coverage starts right after the element before. That some Location
    of the span comes later keeps `prev.group - 1` from wrapping. -/
theorem coveredFrom_le (hat : span.Has at')
    (hprev : ∀ p ∈ prev, span.Has p ∧ streamRank .descending p < streamRank .descending at')
    (hl : span.Has l) : streamRank .descending (coveredFrom prev span) ≤ streamRank .descending l ↔
      ∀ p ∈ prev, streamRank .descending p < streamRank .descending l := by
  cases prev with
  | none =>
    have hhi := (LocRange.has_iff.mp hl).2
    have hlo : span.hi.group.toNat = l.group.toNat → _ := spanLo_le hl
    simp only [coveredFrom, streamRank_descending_le, mem_def, reduceCtorEq, false_implies,
      implies_true, iff_true]
    omega
  | some p =>
    obtain ⟨hp, hlt⟩ := hprev p rfl
    have hlt := streamRank_descending_lt.mp hlt
    simp only [mem_def, some.injEq, forall_eq', streamRank_descending_lt,
      streamRank_descending_le, coveredFrom]
    split_ifs with hmore
    · have hmax := lt_iff_toNat_lt.mpr
        ((lt_iff_toNat_lt.mp hmore).trans_le (le_maxUint64 _))
      simp only [toNat_add_one hmax]
      omega
    · have hmore := mt lt_iff_toNat_lt.mpr hmore
      have hhiAt : p.group.toNat = at'.group.toNat → _ := le_spanHi hat
      have hhiL : p.group.toNat = l.group.toNat → _ := le_spanHi hl
      have hpos : 0 < p.group := lt_iff_toNat_lt.mpr (by
        show 0 < p.group.toNat
        omega)
      have hpred := toNat_sub_one hpos
      have hloL : (p.group - 1).toNat = l.group.toNat → _ := spanLo_le hl
      simp only
      omega

/-- **What an End of Range marker covers** of the span: the Locations after the element before
    it, up to its own, in stream order. -/
theorem covers_streamCovered (hat : span.Has at')
    (hprev : ∀ p ∈ prev, span.Has p ∧ streamRank order p < streamRank order at') (hl : span.Has l) :
    Covers (streamCovered prev at' span order) l ↔
      (∀ p ∈ prev, streamRank order p < streamRank order l) ∧
        streamRank order l ≤ streamRank order at' := by
  cases order with
  | ascending =>
    simp only [streamCovered, covers_cons, not_covers_nil, or_false, LocRange.Has, streamRank]
    cases prev with
    | none =>
      have := hl.1
      simp [this]
    | some p =>
      have hlt : p.rank < at'.rank := (hprev p rfl).2
      cases hsucc : locSucc p with
      | none => exact absurd (locSucc_none hsucc at') (Nat.not_le.mpr hlt)
      | some next =>
        have hnext := locSucc_some hsucc
        simp only [hsucc, getD_some, mem_def, some.injEq, forall_eq']
        omega
  | descending =>
    have hstart := (coveredFrom_le hat hprev hat).mpr fun p hp => (hprev p hp).2
    rw [← coveredFrom_le hat hprev hl]
    simp only [streamCovered]
    generalize coveredFrom prev span = start at hstart ⊢
    have hstart := streamRank_descending_le.mp hstart
    rw [streamRank_descending_le, streamRank_descending_le]
    split_ifs with hsame hmore
    · have hsame := congrArg UInt64.toNat hsame
      simp only [covers_cons, not_covers_nil, or_false, LocRange.has_iff]
      omega
    -- from here on the coverage goes through Groups: the lowest, those between, the highest
    all_goals
      have hlt : at'.group.toNat < start.group.toNat := by
        have := mt UInt64.toNat_inj.mp hsame
        omega
      have hlo : at'.group.toNat = l.group.toNat → _ := spanLo_le hl
      have hhi : start.group.toNat = l.group.toNat → _ := le_spanHi hl
      have hdiff := UInt64.toNat_sub_of_le _ _ (UInt64.le_iff_toNat_le.mpr hlt.le)
    · have hsucc := toNat_add_one
        (lt_iff_toNat_lt.mpr (hlt.trans_le (le_maxUint64 start.group)))
      have hpos : 0 < start.group := lt_iff_toNat_lt.mpr (Nat.zero_lt_of_lt hlt)
      have hpred := toNat_sub_one hpos
      have hmax := le_maxUint64 l.object
      simp only [covers_append, covers_cons, not_covers_nil, or_false, LocRange.has_iff,
        UInt64.toNat_zero, hsucc]
      omega
    · have hmore := mt lt_iff_toNat_lt.mpr hmore
      rw [hdiff, toNat_one] at hmore
      simp only [covers_append, covers_cons, not_covers_nil, or_false, LocRange.has_iff]
      omega

theorem LocRange.Has.proper {r : LocRange} (h : r.Has l) : r.Proper :=
  h.1.trans h.2

section

variable (h : span.Proper) (hlo : span.lo.group.toNat ≤ g.toNat)
  (hhi : g.toNat ≤ span.hi.group.toNat)
include h hlo hhi

theorem has_spanLo : span.Has ⟨g, spanLo span g⟩ := by
  have hspan := LocRange.has_iff.mp h.has_hi
  rw [LocRange.has_iff, spanLo]
  split_ifs with heq
  · rw [heq] at hhi ⊢
    dsimp only
    omega
  · have hne := mt UInt64.toNat_inj.mp heq
    have hzero := UInt64.toNat_zero
    simp only
    omega

theorem has_spanHi : span.Has ⟨g, spanHi span g⟩ := by
  have hspan := LocRange.has_iff.mp h.has_hi
  have hmax := le_maxUint64 span.lo.object
  rw [LocRange.has_iff, spanHi]
  split_ifs with heq
  · rw [heq] at hlo ⊢
    omega
  · have hne := mt UInt64.toNat_inj.mp heq
    simp only
    omega

end

theorem has_coveredFrom (hat : span.Has at')
    (hprev : ∀ p ∈ prev, span.Has p ∧ streamRank .descending p < streamRank .descending at') :
    span.Has (coveredFrom prev span) := by
  have hat' := LocRange.has_iff.mp hat
  cases prev with
  | none => exact has_spanLo hat.proper (by omega) le_rfl
  | some p =>
    obtain ⟨hp, hlt⟩ := hprev p rfl
    have hp' := LocRange.has_iff.mp hp
    have hlt := streamRank_descending_lt.mp hlt
    simp only [coveredFrom]
    split_ifs with hmore
    · have hmore := lt_iff_toNat_lt.mp hmore
      have hmax := lt_iff_toNat_lt.mpr (hmore.trans_le (le_maxUint64 _))
      have hhi := LocRange.has_iff.mp (has_spanHi (g := p.group) hat.proper (by omega) (by omega))
      rw [LocRange.has_iff]
      simp only [toNat_add_one hmax] at hhi ⊢
      omega
    · have hmore := mt lt_iff_toNat_lt.mpr hmore
      have hhiAt : p.group.toNat = at'.group.toNat → _ := le_spanHi hat
      have hpos : 0 < p.group := lt_iff_toNat_lt.mpr (by
        show 0 < p.group.toNat
        omega)
      have hpred := toNat_sub_one hpos
      exact has_spanLo hat.proper (by omega) (by omega)

theorem streamCovered_ranges (hat : span.Has at')
    (hprev : ∀ p ∈ prev, span.Has p ∧ streamRank order p < streamRank order at') :
    (∀ r ∈ streamCovered prev at' span order, span.Has r.lo ∧ span.Has r.hi ∧ r.Proper) ∧
      (streamCovered prev at' span order).Pairwise fun a b => a.hi.rank < b.lo.rank := by
  cases order with
  | ascending =>
    refine ⟨?_, pairwise_singleton _ _⟩
    intro r hr
    cases mem_singleton.mp hr
    cases prev with
    | none => exact ⟨⟨le_rfl, hat.proper⟩, hat, hat.1⟩
    | some p =>
      obtain ⟨hp, hlt⟩ := hprev p rfl
      have hlt : p.rank < at'.rank := hlt
      have hlo := hp.1
      have hhi := hat.2
      cases hsucc : locSucc p with
      | none => exact absurd (locSucc_none hsucc at') (Nat.not_le.mpr hlt)
      | some next =>
        have hnext := locSucc_some hsucc
        simp only [hsucc, getD_some, LocRange.Proper]
        exact ⟨⟨by omega, by omega⟩, hat, by omega⟩
  | descending =>
    have hle := streamRank_descending_le.mp
      ((coveredFrom_le hat hprev hat).mpr fun p hp => (hprev p hp).2)
    have hstart := has_coveredFrom hat hprev
    simp only [streamCovered]
    generalize coveredFrom prev span = start at hle hstart ⊢
    have hatIn := LocRange.has_iff.mp hat
    have hstartIn := LocRange.has_iff.mp hstart
    have hatLo := spanLo_le hat rfl
    have hstartHi := le_spanHi hstart rfl
    have hobjAt := at'.object.toNat_lt
    split_ifs with hsame hmore
    · refine ⟨?_, pairwise_singleton _ _⟩
      intro r hr
      cases mem_singleton.mp hr
      have hsame := congrArg UInt64.toNat hsame
      refine ⟨hstart, hat, ?_⟩
      simp only [LocRange.Proper, Location.rank]
      omega
    -- through several Groups: the lowest from its start, the highest to its end
    all_goals
      have hlt : at'.group.toNat < start.group.toNat := by
        have := mt UInt64.toNat_inj.mp hsame
        omega
      have hfirst : span.Has ⟨at'.group, spanLo span at'.group⟩ :=
        has_spanLo hat.proper (by omega) (by omega)
      have hlast : span.Has ⟨start.group, spanHi span start.group⟩ :=
        has_spanHi hat.proper (by omega) (by omega)
      have hlowest : LocRange.Proper ⟨⟨at'.group, spanLo span at'.group⟩, at'⟩ := by
        simp only [LocRange.Proper, Location.rank]
        omega
      have hhighest : LocRange.Proper ⟨start, ⟨start.group, spanHi span start.group⟩⟩ := by
        simp only [LocRange.Proper, Location.rank]
        omega
    · have hsucc := toNat_add_one
        (lt_iff_toNat_lt.mpr (hlt.trans_le (le_maxUint64 start.group)))
      have hpos : 0 < start.group := lt_iff_toNat_lt.mpr (Nat.zero_lt_of_lt hlt)
      have hpred := toNat_sub_one hpos
      have hdiff := UInt64.toNat_sub_of_le _ _ (UInt64.le_iff_toNat_le.mpr hlt.le)
      have hmore := lt_iff_toNat_lt.mp hmore
      rw [hdiff, toNat_one] at hmore
      have hmid : span.Has ⟨at'.group + 1, 0⟩ ∧ span.Has ⟨start.group - 1, maxUint64⟩ ∧
          LocRange.Proper ⟨⟨at'.group + 1, 0⟩, ⟨start.group - 1, maxUint64⟩⟩ := by
        simp only [LocRange.has_iff, LocRange.Proper, Location.rank, hsucc, UInt64.toNat_zero,
          maxUint64_toNat]
        omega
      refine ⟨?_, ?_⟩
      · intro r hr
        simp only [mem_append, mem_singleton] at hr
        rcases hr with (rfl | rfl) | rfl
        · exact ⟨hfirst, hat, hlowest⟩
        · exact hmid
        · exact ⟨hstart, hlast, hhighest⟩
      · simp only [cons_append, nil_append, pairwise_cons, mem_cons,
          not_mem_nil, or_false, forall_eq_or_imp, forall_eq, Location.rank, hsucc,
          UInt64.toNat_zero, maxUint64_toNat, List.Pairwise.nil, false_implies, implies_true,
          and_true]
        omega
    · refine ⟨?_, ?_⟩
      · intro r hr
        simp only [append_nil, mem_append, mem_singleton] at hr
        rcases hr with rfl | rfl
        · exact ⟨hfirst, hat, hlowest⟩
        · exact ⟨hstart, hlast, hhighest⟩
      · simp only [append_nil, cons_append, nil_append, pairwise_cons,
          mem_singleton, forall_eq, Location.rank, List.Pairwise.nil, not_mem_nil,
          false_implies, implies_true, and_true]
        omega

/-- **`streamCovered` is exact**: of the span, the Locations after `prev` up to `at'` in stream
    order, as ranges of which none is empty and no two overlap. -/
theorem streamCovered_exact {prev : Option Location} {at' : Location} {span : LocRange}
    {order : GroupOrder} (hat : span.Has at')
    (hprev : ∀ p ∈ prev, span.Has p ∧ streamCompare p at' order = .lt) :
    (∀ r ∈ streamCovered prev at' span order, r.Proper) ∧
      (streamCovered prev at' span order).Pairwise (fun a b => ∀ l, ¬ (a.Has l ∧ b.Has l)) ∧
      ∀ l, Covers (streamCovered prev at' span order) l ↔
        span.Has l ∧ (∀ p ∈ prev, streamCompare p l order = .lt) ∧
          streamCompare l at' order ≠ .gt := by
  simp only [streamCompare_eq_lt, streamCompare_ne_gt] at hprev ⊢
  obtain ⟨hranges, hsorted⟩ := streamCovered_ranges hat hprev
  refine ⟨fun r hr => (hranges r hr).2.2, hsorted.imp ?_, fun l => ⟨?_, ?_⟩⟩
  · intro a b hlt l hl
    have hle := hl.1.2.trans_lt hlt
    exact absurd hl.2.1 (Nat.not_le.mpr hle)
  · intro hcovers
    obtain ⟨r, hr, hlo, hhi⟩ := hcovers
    obtain ⟨hrlo, hrhi, -⟩ := hranges r hr
    have hl : span.Has l := ⟨hrlo.1.trans hlo, hhi.trans hrhi.2⟩
    exact ⟨hl, (covers_streamCovered hat hprev hl).mp ⟨r, hr, hlo, hhi⟩⟩
  · rintro ⟨hl, hstream⟩
    exact (covers_streamCovered hat hprev hl).mpr hstream

/-- Three Groups of a span in Descending order, the first and the last of them cut. -/
theorem streamCovered_exact_descending :
    streamCovered (some ⟨7, 5⟩) ⟨4, 1⟩ ⟨⟨4, 0⟩, ⟨7, 9⟩⟩ .descending =
        [⟨⟨4, 0⟩, ⟨4, 1⟩⟩, ⟨⟨5, 0⟩, ⟨6, maxUint64⟩⟩, ⟨⟨7, 6⟩, ⟨7, 9⟩⟩] ∧
      ∀ l, Covers (streamCovered (some ⟨7, 5⟩) ⟨4, 1⟩ ⟨⟨4, 0⟩, ⟨7, 9⟩⟩ .descending) l ↔
        LocRange.Has ⟨⟨4, 0⟩, ⟨7, 9⟩⟩ l ∧
          (∀ p ∈ some (⟨7, 5⟩ : Location), streamCompare p l .descending = .lt) ∧
          streamCompare l ⟨4, 1⟩ .descending ≠ .gt := by
  refine ⟨by decide +kernel, (streamCovered_exact (by decide +kernel) ?_).2.2⟩
  intro p hp
  cases hp
  exact ⟨by decide +kernel, by decide +kernel⟩

/-! ## The loop -/

/-- The two kinds of ranges an answer keeps. -/
inductive RangeMark
  | unknown
  | timedOut
deriving DecidableEq, Repr, Inhabited

/-- What the loop takes an element for: `none` for an Object and for the marker it passes over. -/
def mark (obj : DecodedFetchObject) : Option RangeMark :=
  if obj.endOfUnknownRange then some .unknown
  else if obj.endOfTimedOutRange then some .timedOut
  else none

/-- The ranges of an answer marked `k`. -/
def UpstreamAnswer.marked (ans : UpstreamAnswer) : RangeMark → List LocRange
  | .unknown => ans.unknown
  | .timedOut => ans.timedOut

/-- The first element at or after `l` in stream order. -/
def decides (order : GroupOrder) (elems : List (DecodedFetchObject × Nat)) (l : Location) :
    Option DecodedFetchObject :=
  (elems.map (·.1)).find? fun obj => streamRank order l ≤ streamRank order obj.loc

/-- The elements the loop accepts after `prev`: inside the span, not past FETCH_OK's End Location,
    strictly in stream order. -/
structure Accepted (endLocation : Location) (span : LocRange) (order : GroupOrder)
    (prev : Option Location) (elems : List (DecodedFetchObject × Nat)) : Prop where
  within : ∀ e ∈ elems, span.Has e.1.loc ∧ e.1.loc.rank ≤ endLocation.rank
  after : ∀ e ∈ elems, ∀ p ∈ prev, streamRank order p < streamRank order e.1.loc
  sorted : elems.Pairwise fun a b => streamRank order a.1.loc < streamRank order b.1.loc

theorem upstreamFetchElemOK_iff {loc : Location} : upstreamFetchElemOK loc prev span order = true ↔
      span.Has loc ∧ ∀ p ∈ prev, streamRank order p < streamRank order loc := by
  unfold upstreamFetchElemOK
  split_ifs with hout
  · rw [Bool.or_eq_true, Location.less_iff, Location.less_iff] at hout
    simp only [false_iff, LocRange.Has]
    omega
  · rw [Bool.or_eq_true, Location.less_iff, Location.less_iff] at hout
    have hin : span.Has loc := ⟨by omega, by omega⟩
    cases prev with
    | none => simp [hin]
    | some p => simp [hin, streamCompare_eq_lt]

theorem accepted_cons {endLocation : Location} {obj : DecodedFetchObject} {now : Nat}
    {rest : List (DecodedFetchObject × Nat)} :
    Accepted endLocation span order prev ((obj, now) :: rest) ↔
      (span.Has obj.loc ∧ (∀ p ∈ prev, streamRank order p < streamRank order obj.loc) ∧
        obj.loc.rank ≤ endLocation.rank) ∧
      Accepted endLocation span order (some obj.loc) rest := by
  constructor
  · intro h
    obtain ⟨hlt, hsorted⟩ := pairwise_cons.mp h.sorted
    have hobj := h.within (obj, now) mem_cons_self
    refine ⟨⟨hobj.1, h.after (obj, now) mem_cons_self, hobj.2⟩, ?_, ?_, hsorted⟩
    · exact fun e he => h.within e (mem_cons_of_mem _ he)
    · intro e he p hp
      cases hp
      exact hlt e he
  · intro h
    obtain ⟨⟨hin, hafter, hend⟩, h⟩ := h
    have hlt : ∀ e ∈ rest, streamRank order obj.loc < streamRank order e.1.loc :=
      fun e he => h.after e he obj.loc rfl
    refine ⟨?_, ?_, pairwise_cons.mpr ⟨hlt, h.sorted⟩⟩
    · intro e he
      rcases mem_cons.mp he with rfl | he
      · exact ⟨hin, hend⟩
      · exact h.within e he
    · intro e he p hp
      rcases mem_cons.mp he with rfl | he
      · exact hafter p hp
      · exact (hafter p hp).trans (hlt e he)

section Loop

variable {endLocation : Location} {maxAge : Option Nat} {span : LocRange} {order : GroupOrder}
  {elems : List (DecodedFetchObject × Nat)}

theorem readElements_isSome : ∀ {ans : UpstreamAnswer} {prev : Option Location},
      (readElements endLocation maxAge span order ans prev elems).isSome ↔
        Accepted endLocation span order prev elems := by
  induction elems with
  | nil =>
    intro ans prev
    have hnil : Accepted endLocation span order prev [] := ⟨nofun, nofun, .nil⟩
    simp [readElements, hnil]
  | cons e rest ih =>
    obtain ⟨obj, now⟩ := e
    intro ans prev
    have hstep :
        (!upstreamFetchElemOK obj.loc prev span order || endLocation.less obj.loc) = false ↔
        span.Has obj.loc ∧ (∀ p ∈ prev, streamRank order p < streamRank order obj.loc) ∧
          obj.loc.rank ≤ endLocation.rank := by
      rw [Bool.or_eq_false_iff, Bool.not_eq_false', upstreamFetchElemOK_iff,
        Location.not_less_iff, and_assoc]
    rw [accepted_cons, ← hstep, readElements]
    split_ifs with hbad
    · simp [hbad]
    · rw [ih]
      simp [hbad]

theorem add_marked {ans : UpstreamAnswer} {prev : Option Location} {obj : DecodedFetchObject}
    {now : Nat} (k : RangeMark) :
    (ans.add maxAge prev span order obj now).marked k =
      ans.marked k ++ if mark obj = some k then streamCovered prev obj.loc span order else [] := by
  unfold UpstreamAnswer.add mark
  cases k <;> split_ifs <;> simp_all [UpstreamAnswer.marked]

/-- **What the loop marks**: of each Location of the span after `prev`, what the first element at
    or after it says. -/
theorem covers_readElements {l : Location} (hl : span.Has l) (k : RangeMark) :
    ∀ {ans ans' : UpstreamAnswer} {prev : Option Location}, (∀ p ∈ prev, span.Has p) →
      readElements endLocation maxAge span order ans prev elems = some ans' →
      (Covers (ans'.marked k) l ↔ Covers (ans.marked k) l ∨
        (∀ p ∈ prev, streamRank order p < streamRank order l) ∧
          (decides order elems l).bind mark = some k) := by
  induction elems with
  | nil =>
    intro ans ans' prev _ h
    cases h
    simp [decides]
  | cons e rest ih =>
    obtain ⟨obj, now⟩ := e
    intro ans ans' prev hprev h
    rw [readElements] at h
    split_ifs at h with hbad
    obtain ⟨hok, -⟩ := Bool.or_eq_false_iff.mp (Bool.eq_false_iff.mpr hbad)
    rw [Bool.not_eq_false', upstreamFetchElemOK_iff] at hok
    obtain ⟨hin, hafter⟩ := hok
    have hcov := covers_streamCovered hin (fun p hp => ⟨hprev p hp, hafter p hp⟩) hl
    have hrest := ih (fun p hp => by cases hp; exact hin) h
    have hdecides : decides order ((obj, now) :: rest) l =
        if streamRank order l ≤ streamRank order obj.loc then some obj
        else decides order rest l := by
      simp only [decides, map_cons, List.find?_cons]
      split <;> simp_all
    rw [hrest, add_marked, covers_append, hdecides]
    by_cases hle : streamRank order l ≤ streamRank order obj.loc
    · -- the element decides `l`; those after it do not reach back
      have hnot : ¬ streamRank order obj.loc < streamRank order l := Nat.not_lt.mpr hle
      by_cases hmark : mark obj = some k
      · rw [if_pos hmark, hcov]
        simp [hmark, hle, hnot]
      · simp [hmark, hle, hnot]
    · have hlt : ∀ p ∈ some obj.loc, streamRank order p < streamRank order l := by
        intro p hp
        cases hp
        exact Nat.not_le.mp hle
      have hall : ∀ p ∈ prev, streamRank order p < streamRank order l :=
        fun p hp => (hafter p hp).trans (Nat.not_le.mp hle)
      have hnone : ¬ Covers (if mark obj = some k then streamCovered prev obj.loc span order
          else []) l := by
        split_ifs
        · exact fun h => hle (hcov.mp h).2
        · exact not_covers_nil l
      rw [if_neg hle]
      tauto

def objectOf (maxAge : Option Nat) (e : DecodedFetchObject × Nat) : Option CachedObject :=
  if e.1.endOfUnknownRange || e.1.endOfTimedOutRange || e.1.endOfNonExistentRange then none
  else some (stitchedObject maxAge e.1 e.2)

theorem objectOf_some {e : DecodedFetchObject × Nat} {o : CachedObject}
    (h : objectOf maxAge e = some o) : o.loc = e.1.loc ∧ mark e.1 = none := by
  unfold objectOf at h
  split_ifs at h with hmarker
  cases h
  simp only [Bool.or_eq_true, not_or, Bool.not_eq_true] at hmarker
  exact ⟨rfl, by simp [mark, hmarker.1.1, hmarker.1.2]⟩

theorem readElements_objs : ∀ {ans ans' : UpstreamAnswer} {prev : Option Location},
      readElements endLocation maxAge span order ans prev elems = some ans' →
      ans'.objs = ans.objs ++ elems.filterMap (objectOf maxAge) ∧ ans'.failed = ans.failed := by
  induction elems with
  | nil =>
    intro ans ans' prev h
    cases h
    simp
  | cons e rest ih =>
    obtain ⟨obj, now⟩ := e
    intro ans ans' prev h
    rw [readElements] at h
    split_ifs at h
    obtain ⟨hobjs, hfailed⟩ := ih h
    rw [hobjs, hfailed]
    unfold UpstreamAnswer.add
    split_ifs <;> simp_all [objectOf]

end Loop

theorem decides_self {order : GroupOrder} {elems : List (DecodedFetchObject × Nat)}
    (hsorted : elems.Pairwise fun a b => streamRank order a.1.loc < streamRank order b.1.loc)
    {e : DecodedFetchObject × Nat} (he : e ∈ elems) : decides order elems e.1.loc = some e.1 := by
  induction elems with
  | nil => cases he
  | cons a rest ih =>
    obtain ⟨hlt, hsorted⟩ := pairwise_cons.mp hsorted
    rcases mem_cons.mp he with rfl | he
    · simp [decides]
    · have hnot := Nat.not_le.mpr (hlt e he)
      have hrest := ih hsorted he
      simp only [decides, map_cons, List.find?_cons, hnot, decide_false]
      exact hrest

/-! ## The answer -/

theorem has_tail {endLocation l : Location} {span : LocRange} (h : endLocation.less span.hi) :
    LocRange.Has ⟨(locSucc endLocation).getD {}, span.hi⟩ l ↔
      endLocation.rank < l.rank ∧ l.rank ≤ span.hi.rank := by
  have hlt := Location.less_iff.mp h
  cases hsucc : locSucc endLocation with
  | none => exact absurd (locSucc_none hsucc span.hi) (Nat.not_le.mpr hlt)
  | some next =>
    have hnext := locSucc_some hsucc
    simp only [getD_some, LocRange.Has]
    omega

/-- What stitching relies on in an answer for `span`: its Objects stand at different Locations of
    the span, none of them in a marked range. -/
structure UpstreamAnswer.Sound (ans : UpstreamAnswer) (span : LocRange) : Prop where
  nodup : (ans.objs.map (·.loc)).Nodup
  within : ∀ o ∈ ans.objs, span.Has o.loc
  unmarked : ∀ o ∈ ans.objs, ∀ k, ¬ Covers (ans.marked k) o.loc

section Answer

variable {endLocation : Location} {maxAge : Option Nat} {span : LocRange} {order : GroupOrder}
  {elems : List (DecodedFetchObject × Nat)} {ans : UpstreamAnswer}

section

variable (h : readElements endLocation maxAge span order {} none elems = some ans)
include h

theorem covers_read {l : Location} (hl : span.Has l) (k : RangeMark) :
    Covers (ans.marked k) l ↔ (decides order elems l).bind mark = some k := by
  have hempty : ¬ Covers (UpstreamAnswer.marked {} k) l := by
    cases k <;> exact not_covers_nil l
  have hnone : ∀ p ∈ (none : Option Location), span.Has p := fun p hp => nomatch hp
  rw [covers_readElements hl k hnone h]
  simp [hempty]

theorem sound_read : ans.Sound span := by
  have hacc : Accepted endLocation span order none elems :=
    readElements_isSome.mp (isSome_iff_exists.mpr ⟨ans, h⟩)
  have hobjs : ans.objs = elems.filterMap (objectOf maxAge) := by
    rw [(readElements_objs h).1, nil_append]
  constructor
  · rw [hobjs]
    refine pairwise_map.mpr (pairwise_filterMap.mpr ?_)
    refine hacc.sorted.imp ?_
    intro a b hlt o ho o' ho' heq
    rw [(objectOf_some ho).1, (objectOf_some ho').1] at heq
    exact absurd (heq ▸ hlt) (lt_irrefl _)
  · intro o ho
    rw [hobjs] at ho
    obtain ⟨e, he, heo⟩ := mem_filterMap.mp ho
    rw [(objectOf_some heo).1]
    exact (hacc.within e he).1
  · intro o ho k
    rw [hobjs] at ho
    obtain ⟨e, he, heo⟩ := mem_filterMap.mp ho
    obtain ⟨hloc, hmark⟩ := objectOf_some heo
    rw [hloc, covers_read h (hacc.within e he).1, decides_self hacc.sorted he]
    simp [hmark]

/-- **Under a clean FIN**, the tail past a capped End Location holds no Object either: none was
    accepted there. -/
theorem sound_finish : (ans.finish endLocation span).Sound span := by
  have hans := sound_read h
  have hacc : Accepted endLocation span order none elems :=
    readElements_isSome.mp (isSome_iff_exists.mpr ⟨ans, h⟩)
  unfold UpstreamAnswer.finish
  split_ifs with hcap
  · refine ⟨hans.nodup, hans.within, ?_⟩
    intro o ho k
    cases k with
    | timedOut => exact hans.unmarked o ho .timedOut
    | unknown =>
      have hunmarked : ¬ Covers ans.unknown o.loc := hans.unmarked o ho .unknown
      have hobjs := (readElements_objs h).1
      obtain ⟨e, he, heo⟩ := mem_filterMap.mp (hobjs ▸ ho)
      have hend := (hacc.within e he).2
      rw [← (objectOf_some heo).1] at hend
      simp only [UpstreamAnswer.marked, covers_append, hunmarked, covers_cons, not_covers_nil,
        or_false, false_or]
      exact fun htail => absurd ((has_tail hcap).mp htail).1 (Nat.not_lt.mpr hend)
  · exact hans

/-- **A read that timed out** leaves nothing of the span out, and nothing twice. -/
theorem sound_cutOff : (ans.cutOff span).Sound span := by
  have hans := sound_read h
  refine ⟨hans.nodup, hans.within, ?_⟩
  intro o ho k
  cases k with
  | unknown => exact hans.unmarked o ho .unknown
  | timedOut =>
    have hunmarked : ¬ Covers ans.timedOut o.loc := hans.unmarked o ho .timedOut
    have hobj : Covers (objectRanges ans.objs) o.loc :=
      ⟨⟨o.loc, o.loc⟩, mem_map_of_mem ho, le_rfl, le_rfl⟩
    simp only [UpstreamAnswer.marked, UpstreamAnswer.cutOff, covers_append, covers_uncovered]
    exact fun hc => hc.elim hunmarked fun hc => hc.2.2 (.inr hobj)

end

end Answer

end MoqGo.Relay
