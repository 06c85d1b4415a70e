import MoqGo.Message.RangeFilter
import MoqGo.Relay.Fanout.Writer

/-!
# A downstream subscription (`pkg/relay/internal/registry/subscription.go`)

A `DownstreamSub` is what the relay keeps for one subscriber of a track: what it asked for (the
Forward State, the Location Filter with the Largest Object it is resolved against, the Range
Filters), whether it is still established, and what its answer waits for (its open streams and
datagrams). `mu` guards all of it but `okSent`, which `writeMu` guards, so each function below
is atomic unless it says otherwise.

`installSubscribeParams` (`handler_subscribe.go`) takes the parameters of a request over.
-/

namespace MoqGo.Relay

open Message

/-- `SubState`. -/
inductive SubState
  | terminated
  | established
deriving DecidableEq, Repr, Inhabited

/-- `moqt.PublishDoneCode`. -/
abbrev PublishDoneCode := UInt64

/-- `pendingPublishDone`. -/
structure PendingPublishDone where
  code : PublishDoneCode
  reason : String
deriving DecidableEq, Repr, Inhabited

/-- `DownstreamSub`, as `NewDownstreamSub` constructs it. -/
structure DownstreamSub where
  state : SubState := .established
  forwardState : Nat := 1
  filter : Option LocationFilter := none
  rangeFilters : Option RangeFilterSet := none
  largestAtSubscribe : Location := {}
  hasLargestAtSubscribe : Bool := false
  okSent : Bool := false
  streamsOpened : Nat := 0
  streamsOpening : Int := 0
  streamsOpen : Int := 0
  datagramsSending : Int := 0
  pendingDone : Option PendingPublishDone := none
deriving DecidableEq, Repr, Inhabited

/-- `GroupOutOfRange`. -/
def groupOutOfRange (group : UInt64) : Option LocationFilter → Bool
  | none => false
  | some f =>
    match f.type with
    | .none | .relativeStart | .nextObject => false
    | .absoluteStart | .absoluteStartGroupEnd | .absoluteRange =>
      if group < f.startGroup then true
      else
        match f.end_ with
        | some e => decide (e.group < group)
        | none => false

namespace DownstreamSub

/-! ## What it takes -/

/-- `SetLargestAtSubscribe`. -/
def setLargestAtSubscribe (d : DownstreamSub) (loc : Location) (hasLargest : Bool) :
    DownstreamSub :=
  { d with largestAtSubscribe := loc, hasLargestAtSubscribe := hasLargest }

/-- `ForwardDecision`, its Location Filter: the verdict on an Object that does not pass. -/
def locationVerdict (d : DownstreamSub) (loc : Location) : Option ForwardVerdict :=
  match d.filter with
  | none => none
  | some f =>
    if f.matchesLocation loc d.largestAtSubscribe d.hasLargestAtSubscribe then none
    else if groupOutOfRange loc.group d.filter then some .skipGroup
    else if loc.less (f.start d.largestAtSubscribe d.hasLargestAtSubscribe) then
      some .skipBeforeStart
    else some .skipObject

/-- `ForwardDecision`. -/
def forwardDecision (d : DownstreamSub) (group : UInt64) (o : ObjectAttrs) : ForwardVerdict :=
  if d.state = .terminated then .skipEnded
  else if d.forwardState = 0 then .skipPaused
  else
    match d.locationVerdict ⟨group, o.objectID⟩ with
    | some v => v
    | none =>
      match d.rangeFilters with
      | some rf => if rf.matchesObject o then .forward else .skipObject
      | none => .forward

/-- The Location Filter passes the Object. -/
def passesLocation (d : DownstreamSub) (loc : Location) : Bool :=
  match d.filter with
  | none => true
  | some f => f.matchesLocation loc d.largestAtSubscribe d.hasLargestAtSubscribe

/-- Everything but the Location Filter passes the Object. -/
def takes (d : DownstreamSub) (o : ObjectAttrs) : Bool :=
  d.state == .established && d.forwardState != 0 &&
    (match d.rangeFilters with
      | some rf => rf.matchesObject o
      | none => true)

/-- **`ForwardDecision`** (§3.3.3): Forward and Location Filter and Range Filters. -/
theorem forwardDecision_eq_forward (d : DownstreamSub) (group : UInt64) (o : ObjectAttrs) :
    d.forwardDecision group o = .forward ↔
      d.takes o = true ∧ d.passesLocation ⟨group, o.objectID⟩ = true := by
  have hloc : d.locationVerdict ⟨group, o.objectID⟩ ≠ some .forward ∧
      (d.locationVerdict ⟨group, o.objectID⟩ = none ↔
        d.passesLocation ⟨group, o.objectID⟩ = true) := by
    unfold locationVerdict passesLocation
    cases d.filter with
    | none => simp
    | some f =>
      simp only
      split_ifs with hmatch <;> simp [hmatch]
  have hstate : d.state = .terminated ∨ d.state = .established := by
    cases d.state
    · exact .inl rfl
    · exact .inr rfl
  unfold forwardDecision takes
  rcases hstate with hstate | hstate
  · simp [hstate]
  · by_cases hfwd : d.forwardState = 0
    · simp [hstate, hfwd]
    · cases hv : d.locationVerdict ⟨group, o.objectID⟩ with
      | some v =>
        have hpass : d.passesLocation ⟨group, o.objectID⟩ = false := by
          rw [← Bool.not_eq_true, ← hloc.2, hv]
          exact nofun
        have hne : v ≠ .forward := fun h => hloc.1 (by rw [hv, h])
        simp [hstate, hfwd, hpass, hne]
      | none =>
        have hpass := hloc.2.mp hv
        cases hrf : d.rangeFilters with
        | none => simp [hstate, hfwd, hpass]
        | some rf => simp [hstate, hfwd, hpass]

/-! ## Its streams, its datagrams and its end -/

abbrev ReadyDone := PendingPublishDone × Nat

/-- `BeginStream`. -/
def beginStream (d : DownstreamSub) : DownstreamSub × Bool :=
  if d.state = .terminated then (d, false)
  else ({ d with streamsOpening := d.streamsOpening + 1 }, true)

/-- `BeginDatagram`. -/
def beginDatagram (d : DownstreamSub) : DownstreamSub × Bool :=
  if d.state = .terminated then (d, false)
  else ({ d with datagramsSending := d.datagramsSending + 1 }, true)

/-- `takeReadyDoneLocked`. -/
def takeReadyDone (d : DownstreamSub) : DownstreamSub × Option ReadyDone :=
  match d.pendingDone with
  | none => (d, none)
  | some done =>
    if 0 < d.streamsOpen ∨ 0 < d.streamsOpening ∨ 0 < d.datagramsSending then (d, none)
    else ({ d with pendingDone := none }, some (done, d.streamsOpened))

/-- `EndStream`, up to `takeReadyDoneLocked`. -/
def endStream (d : DownstreamSub) (opened : Bool) : DownstreamSub :=
  let d := { d with streamsOpening := d.streamsOpening - 1 }
  if opened then { d with streamsOpened := d.streamsOpened + 1, streamsOpen := d.streamsOpen + 1 }
  else d

/-- `StreamClosed`, up to `takeReadyDoneLocked`. -/
def streamClosed (d : DownstreamSub) : DownstreamSub := { d with streamsOpen := d.streamsOpen - 1 }

/-- `EndDatagram`, up to `takeReadyDoneLocked`. -/
def endDatagram (d : DownstreamSub) : DownstreamSub :=
  { d with datagramsSending := d.datagramsSending - 1 }

/-- `TerminateWithPublishDone`, up to `takeReadyDoneLocked`; `none` if it was terminated. -/
def terminateWithPublishDone (d : DownstreamSub) (code : PublishDoneCode) (reason : String) :
    Option DownstreamSub :=
  if d.state = .terminated then none
  else some { d with state := .terminated, pendingDone := some ⟨code, reason⟩ }

/-- `Terminate`. -/
def terminate (d : DownstreamSub) : DownstreamSub × Bool :=
  if d.state = .terminated then (d, false) else ({ d with state := .terminated }, true)

/-- `Cancel`, its effect on the state. -/
def cancel (d : DownstreamSub) : DownstreamSub := { d with state := .terminated }

/-- `EndRefused`, its first half: reports whether the stream is then closed. -/
def endRefused (d : DownstreamSub) : DownstreamSub × Bool :=
  ({ d with state := .terminated, pendingDone := none },
    d.state ≠ .terminated || d.pendingDone.isSome)

end DownstreamSub

/-! ## Parameters -/

/-- `installSubscribeParams`, the `LOCATION_FILTER`. -/
def installLocationFilter (d : DownstreamSub) (ps : Parameters) : DownstreamSub :=
  match locationFilterFromParam ps with
  | .ok (some f) => { d with filter := some f }
  | _ => d

/-- `installSubscribeParams`, `FORWARD`. -/
def installForward (d : DownstreamSub) (ps : Parameters) : DownstreamSub :=
  match ps.find paramForward with
  | some p => { d with forwardState := p.byte.toNat }
  | none => d

/-- `installSubscribeParams`, of what decides about Objects: the subscription, and the error of a
    Range Filter, before which the other parameters have been taken over. -/
def installSubscribeParams (maxFilterRanges : UInt64) (d : DownstreamSub) (ps : Parameters) :
    DownstreamSub × Option InvalidFilter :=
  let d := installForward (installLocationFilter d ps) ps
  if !ps.any fun p => (RangeFilterType.ofParam p.type).isSome then (d, none)
  else
    match updateRangeFilters d.rangeFilters ps with
    | .error err => (d, some err)
    | .ok none => ({ d with rangeFilters := none }, none)
    | .ok (some rf) =>
      match rf.validate maxFilterRanges with
      | .error err => (d, some err)
      | .ok () => ({ d with rangeFilters := some rf }, none)

theorem installForward_eq (d : DownstreamSub) (ps : Parameters) :
    ∃ filter forwardState, installForward (installLocationFilter d ps) ps =
      { d with filter := filter, forwardState := forwardState } := by
  unfold installForward installLocationFilter
  split <;> split <;> exact ⟨_, _, rfl⟩

end MoqGo.Relay
