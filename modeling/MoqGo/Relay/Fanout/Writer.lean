import MoqGo.Message.ObjectProperties
import MoqGo.Message.Subgroup

/-!
# The per-subscriber writer (`subgroupWriter`, `pkg/relay/handler_fanout.go`)

A `Writer` drains an inbox of Objects of one Subgroup onto outbound streams to one subscriber.
It keeps a stream open while each Object is known to be **the next** one after the last
(§11.3.2), and resets it and opens a fresh one otherwise.

Contributors call `admit`, `skip`, `markIncomplete`, `publish` and `close` on it; its own
goroutine takes one Object after the other from the inbox (`handle`) and, once the inbox is
closed and empty, ends the last stream (`finishStream`). The locals of `run` are fields here:
`prevID`, `hasWritten`, `writeFailed`, `dropped` and `lagExceeded`.

What the clock, the transport and the subscription decide for one Object is its `Fate`: whether
it waited too long, whether the streams it needs can be opened, whether it expired and how its
write ends. `past` and `out` together are every stream the writer opened, oldest first.
-/

namespace MoqGo.Relay

open Message

/-- `moqt.StreamResetCode` (§12.5), those the fan-out uses; `internalError` is the zero value. -/
inductive StreamResetCode
  | internalError
  | cancelled
  | deliveryTimeout
  | tooFarBehind
  | excessiveLoad
  | malformedTrack
deriving DecidableEq, Repr, Inhabited

/-- `fwdObject`, less its clock readings and delivery timeouts. -/
structure FwdObject where
  obj : SubgroupObject
  absID : UInt64
  first : Bool := false
  follows : Bool := false
deriving DecidableEq, Repr, Inhabited

/-- `inboundPos`: the inbound stream, and how many Objects had been read from it. -/
structure InboundPos where
  src : Nat
  seq : Nat
deriving DecidableEq, Repr, Inhabited

/-- `registry.ForwardVerdict`. -/
inductive ForwardVerdict
  | forward
  | skipBeforeStart
  | skipObject
  | skipPaused
  | skipGroup
  | skipEnded
deriving DecidableEq, Repr, Inhabited

/-- `ResetCause`, those of a stream reset to open a fresh one. -/
inductive ResetCause
  | properties
  | gap
deriving DecidableEq, Repr, Inhabited

/-- How an outbound stream ended. -/
inductive StreamEnd
  | fin
  | reset (code : StreamResetCode)
deriving DecidableEq, Repr, Inhabited

/-- An outbound stream: its header, and the Objects written on it with the absolute IDs they
    were written for. -/
structure OutStream where
  header : SubgroupHeader
  written : List (UInt64 × SubgroupObject) := []
deriving DecidableEq, Repr, Inhabited

namespace OutStream

/-- The absolute Object IDs written. -/
def ids (s : OutStream) : List UInt64 := s.written.map Prod.fst

/-- The Object ID deltas written. -/
def deltas (s : OutStream) : List UInt64 := s.written.map fun p => p.2.objectIDDelta

/-- `obj`, written for Object `id`, is last on the stream. -/
def push (s : OutStream) (id : UInt64) (obj : SubgroupObject) : OutStream :=
  { s with written := s.written ++ [(id, obj)] }

end OutStream

/-- How `WriteObjectReceivedAt` returned. -/
inductive WriteResult
  | ok
  | deliveryTimeout
  | failed
deriving DecidableEq, Repr, Inhabited

/-- What becomes of one dequeued Object outside the writer's control. -/
structure Fate where
  lagging : Bool := false
  opens : Bool := true
  reopens : Bool := true
  expired : Bool := false
  write : WriteResult := .ok
deriving DecidableEq, Repr, Inhabited

/-- `subgroupWriter`. `inboxCap` is the inbox's capacity; `closeCalled` is `closeOnce`. -/
structure Writer where
  hdr : SubgroupHeader
  inboxCap : Nat
  maxDropsBeforeReset : Nat
  seq : Nat := 0
  inbox : List FwdObject := []
  drops : Nat := 0
  closed : Bool := false
  closeCalled : Bool := false
  inboundReset : Bool := false
  inboundResetCode : StreamResetCode := .internalError
  incomplete : Bool := false
  incompleteCode : StreamResetCode := .internalError
  lastAdmitted : UInt64 := 0
  hasAdmitted : Bool := false
  lastPos : Option InboundPos := none
  withProps : Bool := hdr.properties
  prevID : UInt64 := 0
  hasWritten : Bool := false
  writeFailed : Bool := false
  dropped : Bool := false
  lagExceeded : Bool := false
  out : Option OutStream := none
  past : List (OutStream × StreamEnd) := []
  finished : Bool := false
deriving DecidableEq, Repr, Inhabited

namespace Writer

/-! ## What contributors do to a writer -/

/-- `markIncomplete`: the first code stands, except that EXCESSIVE_LOAD overrides. -/
def markIncomplete (w : Writer) (code : StreamResetCode) : Writer :=
  { w with
    incomplete := true
    incompleteCode :=
      if !w.incomplete || code = .excessiveLoad then code else w.incompleteCode }

/-- `resetCode`. -/
def resetCode (w : Writer) : StreamResetCode :=
  if w.incomplete then w.incompleteCode else .cancelled

/-- `close`: the first call wins. -/
def close (w : Writer) (reset : Bool) (code : StreamResetCode) : Writer :=
  if w.closeCalled then w
  else
    { w with
      closeCalled := true
      closed := true
      inboundReset := reset
      inboundResetCode := code }

/-- `skip`: the writer omits the Object `objectID` for verdict `v`. -/
def skip (w : Writer) (v : ForwardVerdict) (objectID : UInt64) : Writer :=
  match v with
  | .skipObject | .skipPaused => w.markIncomplete .cancelled
  | .skipGroup | .skipEnded => w.close true .cancelled
  | .skipBeforeStart =>
    if w.hasAdmitted && w.lastAdmitted < objectID then w.markIncomplete .cancelled else w
  | .forward => w

/-- `admit`, with the verdict of the subscription's `ForwardDecision`: the writer, whether it
    takes the Object `objectID` read at `pos`, and `fwdObject.follows`. -/
def admitObject (w : Writer) (v : ForwardVerdict) (pos : InboundPos) (objectID : UInt64) :
    Writer × Bool × Bool :=
  let follows := w.lastPos.any fun p => p.src == pos.src && p.seq + 1 == pos.seq
  if v = .forward then
    ({ w with lastAdmitted := objectID, hasAdmitted := true, lastPos := some pos }, true, follows)
  else
    let w := w.skip v objectID
    -- §11.3.2: a filtered Object does not separate the ones either side of it
    (if follows then { w with lastPos := some pos } else w, false, false)

def dropCapped (w : Writer) : Bool :=
  decide (0 < w.maxDropsBeforeReset) && decide (w.maxDropsBeforeReset < w.drops)

/-- `publish`: enqueues without blocking; a full inbox drops the Object. -/
def publish (w : Writer) (fwd : FwdObject) : Writer :=
  if w.closed then w
  else if w.inbox.length < w.inboxCap then { w with inbox := w.inbox ++ [fwd] }
  else
    let w := { w with lastPos := none, drops := w.drops + 1 }.markIncomplete .excessiveLoad
    if w.dropCapped then w.close true .excessiveLoad else w

/-! ## Its streams -/

/-- `closeOut`. `dropOut` is the case of a stream the session has reset already. -/
def closeOut (w : Writer) (how : StreamEnd) : Writer :=
  { w with out := none, past := w.past ++ w.out.toList.map fun s => (s, how) }

/-- `run`'s `failWrites`. -/
def failWrites (w : Writer) : Writer := { w with writeFailed := true, closed := true }

/-- The header of the next stream; `first` sets FIRST_OBJECT (§11.3.1), else it is a replay. -/
def freshHeader (w : Writer) (first : Bool) : SubgroupHeader :=
  { w.hdr with
    properties := w.withProps
    replayingSubgroup := !first
    -- a replay stream's first Object would imply the wrong Subgroup ID
    subgroupIDMode :=
      if !first && w.hdr.subgroupIDMode = .implicitFirstObject then .explicit
      else w.hdr.subgroupIDMode }

/-- A fresh stream is open. -/
def opened (w : Writer) (first : Bool) : Writer :=
  { w with out := some { header := w.freshHeader first }, hasWritten := false }

/-- `run`'s `reopen`: resets the current stream, if any, and opens a fresh one. -/
def reopen (w : Writer) (first opens : Bool) : Writer × Bool :=
  let w := w.closeOut (.reset w.resetCode)
  if opens then (w.opened first, true) else (w, false)

/-- `dropExpired`: a stream with nothing on it may claim FIRST_OBJECT for the expired Object. -/
def dropExpired (w : Writer) : Writer :=
  let w := w.markIncomplete .cancelled
  if w.hasWritten then w else w.closeOut (.reset .cancelled)

/-- `isNextObject`. -/
def isNextObject (fwd : FwdObject) (prevID : UInt64) (dropped : Bool) : Bool :=
  if fwd.absID = prevID + 1 then true
  else if dropped || fwd.absID ≤ prevID then false
  else if fwd.follows then true
  else
    match priorObjectIDGap fwd.obj.properties with
    | some gap => fwd.absID - gap == prevID + 1
    | none => false

/-- `reopenCause`'s `needProps`: `fwd` has Properties, which the writer's streams do not carry. -/
def needProps (w : Writer) (fwd : FwdObject) : Bool :=
  !w.withProps && !fwd.obj.properties.isEmpty

/-- `fwd`'s Properties turn PROPERTIES on for this and every later stream. -/
def carryProps (w : Writer) (fwd : FwdObject) : Writer :=
  { w with withProps := w.withProps || w.needProps fwd }

/-- `reopenCause`: why `fwd` needs a fresh stream, if it does. -/
def reopenCause (w : Writer) (fwd : FwdObject) : Writer × Option ResetCause :=
  (w.carryProps fwd,
    if !w.hasWritten then none
    else if w.needProps fwd then some .properties
    else if !isNextObject fwd w.prevID w.dropped then some .gap
    else none)

/-- `fwd` with its Object ID Delta against the current stream. -/
def encoded (w : Writer) (fwd : FwdObject) : SubgroupObject :=
  { fwd.obj with
    objectIDDelta := if w.hasWritten then fwd.absID - w.prevID - 1 else fwd.absID }

/-- The end of `run`'s loop body: `fwd` is written on the current stream. -/
def write (w : Writer) (fwd : FwdObject) : WriteResult → Writer
  | .ok =>
    { w with
      out := w.out.map fun s => s.push fwd.absID (w.encoded fwd)
      prevID := fwd.absID
      hasWritten := true
      dropped := false }
  | .deliveryTimeout => (w.closeOut (.reset .deliveryTimeout)).failWrites
  | .failed => (w.closeOut (.reset .internalError)).failWrites

/-- `run`'s loop body up to the write: the stream `fwd` goes on is open, unless an open failed. -/
def ready (w : Writer) (fwd : FwdObject) (fate : Fate) : Writer × Bool :=
  let (w, cause) := w.reopenCause fwd
  let (w, ok) := if w.out.isNone then w.reopen fwd.first fate.opens else (w, true)
  if !ok then (w, false)
  else if cause.isSome then w.reopen fwd.first fate.reopens
  else (w, true)

/-- One pass of `run`'s loop: `fwd` was dequeued. -/
def handle (w : Writer) (fwd : FwdObject) (fate : Fate) : Writer :=
  if fate.lagging then { w with lagExceeded := true }
  else if w.writeFailed then w
  else
    let (w, ok) := w.ready fwd fate
    if !ok then w.failWrites
    else if fate.expired then { w.dropExpired with dropped := true }
    else w.write fwd fate.write

/-- `finishStream`, once the loop has ended. -/
def finishStream (w : Writer) : Writer :=
  if w.lagExceeded || w.dropCapped then
    { w with closed := true }.closeOut
      (.reset (if w.dropCapped && !w.lagExceeded then .excessiveLoad else .tooFarBehind))
  else if w.writeFailed then w
  else if w.inboundReset then w.closeOut (.reset w.inboundResetCode)
  else if w.incomplete then w.closeOut (.reset w.incompleteCode)
  else w.closeOut .fin

/-- The end of `run`: `finishStream`, and then the guard that leaves no stream open. -/
def finish (w : Writer) : Writer :=
  { w.finishStream.closeOut (.reset .cancelled) with finished := true }

/-- Every stream the writer opened, oldest first. -/
def streams (w : Writer) : List OutStream := w.past.map Prod.fst ++ w.out.toList

end Writer
end MoqGo.Relay
