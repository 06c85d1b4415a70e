import MoqGo.Message.FetchObject
import MoqGo.Message.ObjectProperties
import MoqGo.Relay.Cache

/-!
# Reading a FETCH response (`pkg/moqt/session/datastream_in.go`)

`IncomingFetchStream.ReadDecoded` resolves the deltas of the wire into absolute Group, Object
and Subgroup IDs. It keeps two kinds of prior: the last element, for Locations, and the last
**actual** Object, for Subgroup IDs and priorities; an End of Range marker is the former only
(§11.4.1.2). The direction of a Group ID delta is not on the wire: it is the `GroupOrder` the
stream's owner set.
-/

namespace MoqGo.Session

open Message

/-- `DecodedFetchObject`. -/
structure DecodedFetchObject where
  groupID : UInt64 := 0
  objectID : UInt64 := 0
  subgroupID : UInt64 := 0
  publisherPriority : UInt8 := 0
  properties : List UInt8 := []
  payload : List UInt8 := []
  datagram : Bool := false
  endOfNonExistentRange : Bool := false
  endOfUnknownRange : Bool := false
  endOfTimedOutRange : Bool := false
deriving DecidableEq, Repr, Inhabited

/-- The Location an element stands at. -/
def DecodedFetchObject.loc (d : DecodedFetchObject) : Location := ⟨d.groupID, d.objectID⟩

/-- `IncomingFetchStream`, the decoder's state. -/
structure IncomingFetchStream where
  groupOrder : GroupOrder := .ascending
  decPrevGroup : UInt64 := 0
  decPrevObject : UInt64 := 0
  decPrevSubgroup : UInt64 := 0
  decPrevPriority : UInt8 := 0
  decHavePrev : Bool := false
  decHaveActual : Bool := false
deriving DecidableEq, Repr, Inhabited

/-- What `ReadDecoded` reports. -/
inductive FetchStreamError
  | object (err : FetchObjectError)
  | priorSubgroup (flags : UInt64)
  | priorPriority (flags : UInt64)
  | missingDelta (flags : UInt64)
  | idOverflow (prevGroup prevObject flags : UInt64)
  | malformedTrack (group object : UInt64) (err : PropertiesError)
deriving DecidableEq, Repr

namespace IncomingFetchStream

/-- `bits.Add64(x, y, carry)`, where it does not overflow. -/
def add64 (x y carry : UInt64) : Option UInt64 :=
  if x.toNat + y.toNat + carry.toNat < 2 ^ 64 then some (x + y + carry) else none

/-- `bits.Sub64(x, y, borrow)`, where it does not underflow. -/
def sub64 (x y borrow : UInt64) : Option UInt64 :=
  if y.toNat + borrow.toNat ≤ x.toNat then some (x - y - borrow) else none

/-- The Group of an element that has a prior one. -/
def nextGroup (s : IncomingFetchStream) (raw : FetchObject) : Option UInt64 :=
  if raw.has fetchFlagGroupIDDelta then
    match s.groupOrder with
    | .descending => sub64 s.decPrevGroup raw.groupIDDelta 1
    | .ascending => add64 s.decPrevGroup raw.groupIDDelta 1
  else some s.decPrevGroup

/-- And its Object ID. -/
def nextObject (s : IncomingFetchStream) (raw : FetchObject) : Option UInt64 :=
  if !raw.has fetchFlagObjectIDDelta then add64 s.decPrevObject 0 1
  else if raw.has fetchFlagGroupIDDelta then some raw.objectIDDelta
  else add64 s.decPrevObject raw.objectIDDelta 0

/-- `ReadDecoded`'s reconstruction of Group and Object ID. -/
def readLocation (s : IncomingFetchStream) (raw : FetchObject) : Except FetchStreamError Location :=
  if !s.decHavePrev then
    if !raw.has fetchFlagGroupIDDelta || !raw.has fetchFlagObjectIDDelta then
      .error (.missingDelta raw.serializationFlags)
    else .ok ⟨raw.groupIDDelta, raw.objectIDDelta⟩
  else
    match s.nextGroup raw, s.nextObject raw with
    | some group, some object => .ok ⟨group, object⟩
    | _, _ => .error (.idOverflow s.decPrevGroup s.decPrevObject raw.serializationFlags)

/-- The check that nothing refers to a prior Object before there is one. -/
def checkPrior (s : IncomingFetchStream) (raw : FetchObject) : Except FetchStreamError Unit :=
  if s.decHaveActual then .ok ()
  else if !raw.isDatagram && (raw.subgroupMode == fetchSubgroupIDPrior ||
      raw.subgroupMode == fetchSubgroupIDPriorPlusOne) then
    .error (.priorSubgroup raw.serializationFlags)
  else if !raw.has fetchFlagPriority then .error (.priorPriority raw.serializationFlags)
  else .ok ()

/-- The Subgroup ID of an Object that is not a datagram. -/
def readSubgroup (s : IncomingFetchStream) (raw : FetchObject) : UInt64 :=
  if raw.subgroupMode == fetchSubgroupIDZero then 0
  else if raw.subgroupMode == fetchSubgroupIDPrior then s.decPrevSubgroup
  else if raw.subgroupMode == fetchSubgroupIDPriorPlusOne then s.decPrevSubgroup + 1
  else raw.subgroupID

/-- `ReadDecoded` after `ReadObject`. -/
def resolve (s : IncomingFetchStream) (raw : FetchObject) :
    Except FetchStreamError (DecodedFetchObject × IncomingFetchStream) :=
  if isEndOfRange raw.serializationFlags then
    .ok ({ groupID := raw.groupIDDelta
           objectID := raw.objectIDDelta
           endOfNonExistentRange := raw.isEndOfNonExistentRange
           endOfUnknownRange := raw.isEndOfUnknownRange
           endOfTimedOutRange := raw.isEndOfTimedOutRange },
      { s with
        decPrevGroup := raw.groupIDDelta
        decPrevObject := raw.objectIDDelta
        decHavePrev := true })
  else do
    s.checkPrior raw
    let loc ← s.readLocation raw
    let subgroupID := if raw.isDatagram then 0 else s.readSubgroup raw
    let publisherPriority :=
      if raw.has fetchFlagPriority then raw.publisherPriority else s.decPrevPriority
    let d : DecodedFetchObject :=
      { groupID := loc.group
        objectID := loc.object
        subgroupID := subgroupID
        publisherPriority := publisherPriority
        properties := raw.properties
        payload := raw.objectPayload
        datagram := raw.isDatagram }
    let s' : IncomingFetchStream :=
      { s with
        decPrevGroup := loc.group
        decPrevObject := loc.object
        decPrevSubgroup := if raw.isDatagram then s.decPrevSubgroup else subgroupID
        decPrevPriority := publisherPriority
        decHavePrev := true
        decHaveActual := true }
    if raw.properties.isEmpty then return (d, s')
    match checkObjectProperties raw.properties loc.group loc.object with
    | .ok () => return (d, s')
    | .error err => throw (.malformedTrack loc.group loc.object err)

/-- `ReadDecoded`: the next element, and the state after it. -/
def readDecoded (maxField : Nat) (s : IncomingFetchStream) :
    Lib.Parser UInt8 FetchStreamError (DecodedFetchObject × IncomingFetchStream) := do
  let raw ← (FetchObject.parse maxField).mapError FetchStreamError.object
  fun bs => (s.resolve raw).map (·, bs)

/-- `ReadDecoded` called until the stream's clean FIN, which is the only way to a result. Each
    element takes a byte at least, so one call more than there are bytes is bound enough. -/
def readAll (maxField : Nat) : Nat → IncomingFetchStream → List UInt8 →
    Except FetchStreamError (List DecodedFetchObject)
  | 0, _, _ => .error (.object (.wire .eof))
  | fuel + 1, s, bs =>
    match s.readDecoded maxField bs with
    | .error (.object (.wire .eof)) => .ok []
    | .error err => .error err
    | .ok ((d, s'), bs') => (readAll maxField fuel s' bs').map (d :: ·)

end IncomingFetchStream
end MoqGo.Session
