import MoqGo.Message.ObjectProperties
import MoqGo.Relay.Cache

/-!
# The dedup ledger (`pkg/relay/internal/registry/track_entry.go`)

The ledger is what a track remembers of the Objects its upstreams sent: which were forwarded,
where each Subgroup, Group and the Track end, and which IDs a Prior Gap announced absent. It
holds `deliveredGroupWindow` Groups, the lowest pruned first; an Object of a pruned or lower
Group is *aged out*, and nothing is known about it.

The three operations below are the source's three entry points, each atomic under
`deliveredMu`:

* `claimDelivered`: the verdict on an Object, which records a fresh one;
* `recordDuplicate`: what a redundant copy still says about its Subgroup, Group and Track;
* `subgroupEnded`: an inbound stream's FIN.

An error also names what the source removes from the Object Cache before it returns
(`Purge`), so that this file is about the ledger alone; `Relay/TrackEntry.lean` applies it. The
`*deliveredGroup` pointers of the source become values that are written back into the map.
-/

namespace MoqGo.Relay

open Message

/-- `registry.ObjectInfo`: what the ledger checks of an Object. -/
structure ObjectInfo where
  group : UInt64
  object : UInt64
  subgroup : UInt64 := 0
  datagram : Bool := false
  priority : UInt8 := 0
  status : UInt64 := 0
  endOfGroup : Bool := false
  gaps : PriorGaps := {}
deriving DecidableEq, Repr, Inhabited

namespace ObjectInfo

def loc (o : ObjectInfo) : Location := ⟨o.group, o.object⟩

def normal (o : ObjectInfo) : Bool := o.status == objectStatusNormal

end ObjectInfo

/-! ## Ends -/

/-- `end`: where a Subgroup, Group or Track ends, its first missing Object ID. `hard` reports
    that a FIN or an END_OF_GROUP bit set it, rather than a status Object. -/
structure End where
  atID : UInt64 := 0
  set : Bool := false
  hard : Bool := false
deriving DecidableEq, Repr, Inhabited

namespace End

/-- `end.past`: a status Object strictly after the end, a Normal one also at it if hard. -/
def past (e : End) (id : UInt64) (normal : Bool) : Bool :=
  e.set && (decide (e.atID < id) || (id == e.atID && normal && e.hard))

/-- `end.conflicts`. A status end at `M` and a hard end at `M+1` agree. -/
def conflicts (e : End) (atID : UInt64) (hard : Bool) : Bool :=
  if !e.set || e.atID == atID then false
  else if hard && !e.hard then atID != e.atID + 1
  else if !hard && e.hard then atID + 1 != e.atID
  else true

/-- `end.with`. -/
def withEnd (e : End) (atID : UInt64) (hard : Bool) : End :=
  if !e.set then ⟨atID, true, hard⟩
  else if atID == e.atID then ⟨atID, true, e.hard || hard⟩
  else if atID < e.atID then ⟨atID, true, false⟩ -- a status end below a hard one
  else e

/-- `lower`: whichever of the two ends first. -/
def lower (a b : End) : End := if b.atID < a.atID then b else a

end End

/-! ## What is kept per Subgroup and per Group -/

/-- The part `subgroupLedger` and `deliveredGroup` share: the largest Normal and status Object
    IDs received, if any, and the end. -/
structure Marks where
  maxNormal : UInt64 := 0
  maxStatus : UInt64 := 0
  hasNormal : Bool := false
  hasStatus : Bool := false
  ending : End := {}
deriving DecidableEq, Repr, Inhabited

namespace Marks

/-- `deliveredGroup.pastEnd`: an Object received is past `ended`. -/
def pastEnd (m : Marks) (ended : End) : Bool :=
  (m.hasNormal && ended.past m.maxNormal true) || (m.hasStatus && ended.past m.maxStatus false)

/-- An Object was received. -/
def received (m : Marks) (normal : Bool) (id : UInt64) : Marks :=
  if normal then { m with maxNormal := max m.maxNormal id, hasNormal := true }
  else { m with maxStatus := max m.maxStatus id, hasStatus := true }

end Marks

/-- `subgroupLedger`. -/
structure SubgroupLedger extends Marks where
  priority : UInt8 := 0
  minObject : UInt64 := 0
  hasObject : Bool := false
deriving DecidableEq, Repr, Inhabited

/-- `idRange`: an inclusive range of Group or Object IDs. -/
structure IdRange where
  lo : UInt64
  hi : UInt64
deriving DecidableEq, Repr, Inhabited

def IdRange.contains (r : IdRange) (id : UInt64) : Bool := decide (r.lo ≤ id) && decide (id ≤ r.hi)

/-- `gapRange`: the IDs a Prior Gap of `n` on `id` announces absent; none for `n = 0`. -/
def gapRange (id n : UInt64) : Option IdRange :=
  if 0 < n then some ⟨id - n, id - 1⟩ else none

/-- `deliveredGroup`. -/
structure DeliveredGroup extends Marks where
  objects : Finset UInt64 := ∅
  subgroups : GoMap UInt64 SubgroupLedger := ∅
  objectGaps : List IdRange := []
  groupGap : UInt64 := 0
  hasGroupGap : Bool := false

/-- The ledger fields of `TrackEntry`. -/
structure Ledger where
  delivered : GoMap UInt64 DeliveredGroup := ∅
  groupGaps : List IdRange := []
  trackEnd : Location := {}
  hasTrackEnd : Bool := false
  deliveredFloor : UInt64 := 0

/-- `deliveredGroupWindow`: how many Groups the ledger holds. -/
def deliveredGroupWindow : Nat := 32

/-- `Claim`: the verdict on an Object. -/
inductive Claim
  | fresh
  | redundant
  | agedOut
deriving DecidableEq, Repr, Inhabited

/-! ## Errors -/

/-- The errors wrapping `session.ErrMalformedTrack` the ledger returns. -/
inductive MalformedTrack
  | groupGaps (group a b : UInt64)
  | pastTrackEnd (object group : UInt64) (trackEnd : Location)
  | trackEnds (object group : UInt64) (trackEnd : Location)
  | trackEndBelow (object group : UInt64)
  | pastGroupEnd (object group atID : UInt64)
  | groupEnds (group a b : UInt64)
  | groupEndBelow (group atID : UInt64)
  | priorities (subgroup group : UInt64) (a b : UInt8)
  | pastSubgroupEnd (object subgroup group atID : UInt64)
  | subgroupEnds (subgroup group a b : UInt64)
  | subgroupEndBelow (subgroup group atID : UInt64)
deriving DecidableEq, Repr

/-- The text after the wrapped `moqt/session: malformed track`. -/
def MalformedTrack.message : MalformedTrack → String
  | groupGaps group a b => s!"Group {group} carries Prior Group ID Gaps {a} and {b} (§10.8)"
  | pastTrackEnd object group ⟨g, o⟩ =>
    s!"Object {object} of Group {group} is past END_OF_TRACK at {g}/{o} (§12.1)"
  | trackEnds object group ⟨g, o⟩ =>
    s!"END_OF_TRACK at Object {object} of Group {group} and at {g}/{o} (§12.1)"
  | trackEndBelow object group =>
    s!"END_OF_TRACK at Object {object} of Group {group} is below an Object received (§12.1)"
  | pastGroupEnd object group atID =>
    s!"Object {object} of Group {group} is past its end at {atID} (§12.1)"
  | groupEnds group a b => s!"Group {group} ends at Objects {a} and {b} (§12.1)"
  | groupEndBelow group atID =>
    s!"Group {group} ends at Object {atID} below an Object received (§12.1)"
  | priorities subgroup group a b =>
    s!"Subgroup {subgroup} of Group {group} has Publisher Priorities {a} and {b} (§12.1)"
  | pastSubgroupEnd object subgroup group atID =>
    s!"Object {object} of Subgroup {subgroup} in Group {group} is past its end at {atID} (§12.1)"
  | subgroupEnds subgroup group a b =>
    s!"Subgroup {subgroup} of Group {group} ends at Objects {a} and {b} (§12.1)"
  | subgroupEndBelow subgroup group atID =>
    s!"Subgroup {subgroup} of Group {group} ends at Object {atID} below an Object received (§12.1)"

/-- What the source removes from the cache before it reports an error: `purgePastLocked`'s
    arguments, or `purgeTrackPastLocked`'s. -/
inductive Purge
  | past (group : UInt64) (subgroup : Option UInt64) (ended : End)
  | trackPast (loc : Location)
deriving DecidableEq, Repr

structure Malformed where
  err : MalformedTrack
  purge : Option Purge := none
deriving DecidableEq, Repr

/-! ## Checks -/

/-- `groupEnd`: where `o` ends its Group, if it does, and whether hard. After Object `2⁶⁴-1`
    nothing lies past, so a bit there ends nothing. -/
def groupEnd (o : ObjectInfo) : Option (UInt64 × Bool) :=
  if o.status == objectStatusEndOfGroup || o.status == objectStatusEndOfTrack then
    some (o.object, false)
  else if o.datagram && o.endOfGroup && decide (o.object < maxUint64) then
    some (o.object + 1, true)
  else none

namespace Ledger

/-- What `purgeTrackPastLocked` reports: an Object past END_OF_TRACK at `loc` was received. -/
def receivedPast (e : Ledger) (loc : Location) : Bool :=
  e.delivered.entries.any fun ⟨id, g⟩ =>
    decide (loc.group < id) || (id == loc.group && g.pastEnd ⟨loc.object, true, false⟩)

/-- The Track's end in `checkEndsLocked`: the first `switch`. -/
def checkTrackEnd (e : Ledger) (o : ObjectInfo) : Option Malformed :=
  if e.hasTrackEnd && e.trackEnd.less o.loc then
    some ⟨.pastTrackEnd o.object o.group e.trackEnd, none⟩
  else if o.status != objectStatusEndOfTrack then none
  else if e.hasTrackEnd && e.trackEnd != o.loc then
    some ⟨.trackEnds o.object o.group e.trackEnd, some (.trackPast o.loc)⟩
  else if e.receivedPast o.loc then
    some ⟨.trackEndBelow o.object o.group, some (.trackPast o.loc)⟩
  else none

/-- An end of Group `group` at `atID`, checked against what was received: two ends in different
    places, or an end below an Object. Shared by `checkEndsLocked` and `SubgroupEnded`. -/
def checkGroupEnd (g : Marks) (group atID : UInt64) (hard : Bool) : Option Malformed :=
  if g.ending.conflicts atID hard then
    some ⟨.groupEnds group g.ending.atID atID,
      some (.past group none (g.ending.lower ⟨atID, true, hard⟩))⟩
  else if g.pastEnd (g.ending.withEnd atID hard) then
    some ⟨.groupEndBelow group atID, some (.past group none (g.ending.withEnd atID hard))⟩
  else none

/-- The Subgroup's part of `checkEndsLocked`: its priority and its end. -/
def checkSubgroup (g : DeliveredGroup) (o : ObjectInfo) : Option Malformed :=
  match g.subgroups.lookup o.subgroup with
  | none => none
  | some sg =>
    if sg.priority != o.priority then
      some ⟨.priorities o.subgroup o.group sg.priority o.priority, none⟩
    else if sg.ending.past o.object o.normal then
      some ⟨.pastSubgroupEnd o.object o.subgroup o.group sg.ending.atID, none⟩
    else none

/-- `checkEndsLocked`, for a Group the ledger holds. -/
def checkGroup (g : DeliveredGroup) (o : ObjectInfo) : Option Malformed :=
  if g.ending.past o.object o.normal then
    some ⟨.pastGroupEnd o.object o.group g.ending.atID, none⟩
  else
    ((groupEnd o).bind fun (atID, hard) => checkGroupEnd g.toMarks o.group atID hard).or <|
      if o.datagram then none else checkSubgroup g o

/-- `checkEndsLocked`: the §12.1 conditions `o` makes against the earlier Objects, `g` being
    its Group's entry. -/
def checkEnds (e : Ledger) (g : Option DeliveredGroup) (o : ObjectInfo) : Option Malformed :=
  (e.checkTrackEnd o).or (g.bind fun g => checkGroup g o)

/-- `announcedAbsentLocked`: inside a gap announced earlier. -/
def announcedAbsent (e : Ledger) (g : Option DeliveredGroup) (group object : UInt64) : Bool :=
  e.groupGaps.any (·.contains group) ||
    g.elim false fun g => g.objectGaps.any (·.contains object)

/-! ## Records -/

/-- The window is full: prune the lowest Group, and the gaps announced below the new lowest. -/
def pruneLowest (e : Ledger) : Ledger :=
  let delivered := e.delivered.erase e.deliveredFloor
  let floor := delivered.keys.foldl min maxUint64
  { e with
    delivered := delivered
    deliveredFloor := floor
    groupGaps := e.groupGaps.filter fun r => !decide (r.hi < floor) }

/-- `addDeliveredGroupLocked`'s first half. -/
def makeRoom (e : Ledger) : Ledger :=
  if deliveredGroupWindow ≤ e.delivered.keys.length then e.pruneLowest else e

/-- `addDeliveredGroupLocked`. -/
def addDeliveredGroup (e : Ledger) (group : UInt64) (g : DeliveredGroup) : Ledger :=
  let e := e.makeRoom
  { e with
    deliveredFloor :=
      if e.delivered.keys.length = 0 ∨ group < e.deliveredFloor then group else e.deliveredFloor
    delivered := e.delivered.insert group g }

/-- `recordGapsLocked`, on the Group's entry: its Object ID gaps and Group gap value. -/
def recordObjectGap (g : DeliveredGroup) (object : UInt64) (gaps : PriorGaps) : DeliveredGroup :=
  match gapRange object gaps.object with
  | some r =>
    if gaps.hasObject && !g.objectGaps.contains r then { g with objectGaps := g.objectGaps ++ [r] }
    else g
  | none => g

/-- `recordGapsLocked`. -/
def recordGaps (e : Ledger) (g : DeliveredGroup) (group object : UInt64) (gaps : PriorGaps) :
    Ledger × DeliveredGroup :=
  let g := recordObjectGap g object gaps
  if gaps.hasGroup && !g.hasGroupGap then
    let g := { g with groupGap := gaps.group, hasGroupGap := true }
    match gapRange group gaps.group with
    | some r => ({ e with groupGaps := e.groupGaps ++ [r] }, g)
    | none => (e, g)
  else (e, g)

/-- The Subgroup's part of `recordEndsLocked`. `sg` is its entry, if one exists. -/
def recordSubgroup (sg : Option SubgroupLedger) (o : ObjectInfo) : SubgroupLedger :=
  let sg := sg.getD { priority := o.priority }
  let lowest := !sg.hasObject || decide (o.object < sg.minObject)
  { sg with
    toMarks := sg.received o.normal o.object
    minObject := if lowest then o.object else sg.minObject
    hasObject := true }

/-- The Group's part of `recordEndsLocked`. -/
def recordGroup (g : DeliveredGroup) (o : ObjectInfo) : DeliveredGroup :=
  let m := g.received o.normal o.object
  let m := match groupEnd o with
    | some (atID, hard) => { m with ending := m.ending.withEnd atID hard }
    | none => m
  { g with
    toMarks := m
    subgroups :=
      if o.datagram then g.subgroups
      else g.subgroups.insert o.subgroup (recordSubgroup (g.subgroups.lookup o.subgroup) o) }

/-- The Track's part of `recordEndsLocked`. -/
def recordTrackEnd (e : Ledger) (o : ObjectInfo) : Ledger :=
  if o.status == objectStatusEndOfTrack then { e with trackEnd := o.loc, hasTrackEnd := true }
  else e

/-- Write a Group's entry back: the source holds it by pointer. -/
def put (e : Ledger) (group : UInt64) (g : DeliveredGroup) : Ledger :=
  { e with delivered := e.delivered.insert group g }

/-! ## The three operations -/

/-- `ClaimDelivered`'s first test: the Object's Group is older than every Group held. -/
def agesOut (e : Ledger) (group : UInt64) : Bool :=
  (e.delivered.lookup group).isNone && decide (deliveredGroupWindow ≤ e.delivered.keys.length) &&
    decide (group < e.deliveredFloor)

/-- A Group carrying two Prior Group ID Gap values (§10.8). -/
def checkGroupGap (g : Option DeliveredGroup) (o : ObjectInfo) : Option Malformed :=
  match g with
  | some g =>
    if o.gaps.hasGroup && g.hasGroupGap && g.groupGap != o.gaps.group then
      some ⟨.groupGaps o.group g.groupGap o.gaps.group, none⟩
    else none
  | none => none

/-- `ClaimDelivered`, past its checks: the Group's entry, made now if it is new. -/
def openGroup (e : Ledger) (group : UInt64) : Ledger × DeliveredGroup :=
  match e.delivered.lookup group with
  | some g => (e, g)
  | none => (e.addDeliveredGroup group {}, {})

/-- `TrackEntry.ClaimDelivered`: the new ledger, the verdict and the error. -/
def claimDelivered (e : Ledger) (o : ObjectInfo) : Ledger × Claim × Option Malformed :=
  let g := e.delivered.lookup o.group
  if e.agesOut o.group then (e, .agedOut, none)
  else
    match (checkGroupGap g o).or (e.checkEnds g o) with
    | some err => (e, .redundant, some err)
    | none =>
      if e.announcedAbsent g o.group o.object then (e, .redundant, none)
      else
        let (e, g) := e.openGroup o.group
        let (e, g) := e.recordGaps g o.group o.object o.gaps
        if o.object ∈ g.objects then (e.put o.group g, .redundant, none)
        else
          let g := recordGroup g o
          ((e.recordTrackEnd o).put o.group { g with objects := insert o.object g.objects },
            .fresh, none)

/-- `TrackEntry.RecordDuplicate`. -/
def recordDuplicate (e : Ledger) (o : ObjectInfo) : Ledger × Option Malformed :=
  match e.delivered.lookup o.group with
  | none => (e, none)
  | some g =>
    if o.object ∉ g.objects then (e, none) -- one dropped as announced absent
    else
      match e.checkEnds (some g) o with
      | some err => (e, some err)
      | none => ((e.recordTrackEnd o).put o.group (recordGroup g o), none)

/-- Where a FIN after `last` ends its Subgroup, and whether hard: on a status Object at it,
    else past it. Past Object `2⁶⁴-1` there is nothing to end. -/
def finEnd (last : ObjectInfo) : Option (UInt64 × Bool) :=
  if last.normal then
    if last.object == maxUint64 then none else some (last.object + 1, true)
  else some (last.object, false)

/-- The Subgroup's two cases of `SubgroupEnded`'s `switch`. -/
def checkSubgroupEnd (sg : SubgroupLedger) (group subgroup atID : UInt64) (hard : Bool) :
    Option Malformed :=
  if sg.ending.conflicts atID hard then
    some ⟨.subgroupEnds subgroup group sg.ending.atID atID,
      some (.past group (some subgroup) (sg.ending.lower ⟨atID, true, hard⟩))⟩
  else if sg.pastEnd (sg.ending.withEnd atID hard) then
    some ⟨.subgroupEndBelow subgroup group atID,
      some (.past group (some subgroup) (sg.ending.withEnd atID hard))⟩
  else none

/-- `SubgroupEnded`'s checks, of a stream that ended after `last`. The Subgroup's entry is new
    if every Object of it was dropped. -/
def checkFin (g : DeliveredGroup) (last : ObjectInfo) (endOfGroup : Bool) (atID : UInt64)
    (hard : Bool) : Option Malformed :=
  let sg := (g.subgroups.lookup last.subgroup).getD { priority := last.priority }
  (checkSubgroupEnd sg last.group last.subgroup atID hard).or
    (if endOfGroup then checkGroupEnd g.toMarks last.group atID hard else none)

/-- What `SubgroupEnded` records. -/
def recordFin (g : DeliveredGroup) (last : ObjectInfo) (endOfGroup : Bool) (atID : UInt64)
    (hard : Bool) : DeliveredGroup :=
  let sg := (g.subgroups.lookup last.subgroup).getD { priority := last.priority }
  { g with
    subgroups := g.subgroups.insert last.subgroup { sg with ending := sg.ending.withEnd atID hard }
    ending := if endOfGroup then g.ending.withEnd atID hard else g.ending }

/-- `TrackEntry.SubgroupEnded`. -/
def subgroupEnded (e : Ledger) (last : ObjectInfo) (endOfGroup : Bool) :
    Ledger × Option Malformed :=
  match e.delivered.lookup last.group with
  | none => (e, none) -- aged out of the window, or every Object dropped
  | some g =>
    match finEnd last with
    | none => (e, none)
    | some (atID, hard) =>
      match checkFin g last endOfGroup atID hard with
      | some err => (e, some err)
      | none => (e.put last.group (recordFin g last endOfGroup atID hard), none)

/-! ## Calls -/

/-- One call on the ledger, with its arguments. -/
inductive Call
  | claimDelivered (o : ObjectInfo)
  | recordDuplicate (o : ObjectInfo)
  | subgroupEnded (last : ObjectInfo) (endOfGroup : Bool)
deriving DecidableEq, Repr

/-- What a call returned: `ClaimDelivered`'s verdict, and the error. -/
structure Reply where
  claim : Option Claim := none
  err : Option Malformed := none
deriving DecidableEq, Repr

/-- A call's effect on the ledger, and what it returned. -/
def call (e : Ledger) : Call → Ledger × Reply
  | .claimDelivered o => let (e, claim, err) := e.claimDelivered o; (e, ⟨some claim, err⟩)
  | .recordDuplicate o => let (e, err) := e.recordDuplicate o; (e, ⟨none, err⟩)
  | .subgroupEnded last eog => let (e, err) := e.subgroupEnded last eog; (e, ⟨none, err⟩)

/-! ## What the ledger reports -/

/-- `LowestForwarded`. -/
def lowestForwarded (e : Ledger) (group subgroup : UInt64) : Option UInt64 :=
  match (e.delivered.lookup group).bind (·.subgroups.lookup subgroup) with
  | some sg => if sg.hasObject then some sg.minObject else none
  | none => none

end Ledger

/-- `LocRange`: an inclusive range of Locations. -/
structure LocRange where
  lo : Location
  hi : Location
deriving DecidableEq, Repr, Inhabited

/-- `l` lies in the range. -/
def LocRange.Has (r : LocRange) (l : Location) : Prop := r.lo.rank ≤ l.rank ∧ l.rank ≤ r.hi.rank

instance (r : LocRange) (l : Location) : Decidable (r.Has l) :=
  inferInstanceAs (Decidable (_ ∧ _))

/-- One Group's part of `KnownAbsent`: from its end onward, and its Object ID gaps. -/
def DeliveredGroup.knownAbsent (id : UInt64) (g : DeliveredGroup) : List LocRange :=
  (if g.ending.set then [⟨⟨id, g.ending.atID⟩, ⟨id, maxUint64⟩⟩] else []) ++
    g.objectGaps.map fun r => ⟨⟨id, r.lo⟩, ⟨id, r.hi⟩⟩

/-- `KnownAbsent`: the Locations the ledger knows do not exist. -/
def Ledger.knownAbsent (e : Ledger) : List LocRange :=
  (e.delivered.entries.flatMap fun ⟨id, g⟩ => g.knownAbsent id) ++
    e.groupGaps.map fun r => ⟨⟨r.lo, 0⟩, ⟨r.hi, maxUint64⟩⟩

end MoqGo.Relay
