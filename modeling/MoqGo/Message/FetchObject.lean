import MoqGo.Wire.Reader

/-!
# Objects of a FETCH response on the wire (`pkg/moqt/message/fetch_object.go`)

An element of a FETCH response starts with its Serialization Flags, which say what other fields
follow (§11.4.1). Values of 128 or more are the three End of Range markers, and no others are
allowed.

**`reads_parse`**: an object whose absent fields are zero is read back as it was written.
-/

namespace MoqGo.Message

open Lib Wire

/-- `FetchObject`. -/
structure FetchObject where
  serializationFlags : UInt64 := 0
  groupIDDelta : UInt64 := 0
  subgroupID : UInt64 := 0
  objectIDDelta : UInt64 := 0
  publisherPriority : UInt8 := 0
  properties : List UInt8 := []
  objectPayload : List UInt8 := []
deriving DecidableEq, Repr, Inhabited

/-- The Serialization Flags (§11.4.1.1). -/
def fetchFlagSubgroupIDMode : UInt64 := 0x03
def fetchFlagObjectIDDelta : UInt64 := 0x04
def fetchFlagGroupIDDelta : UInt64 := 0x08
def fetchFlagPriority : UInt64 := 0x10
def fetchFlagProperties : UInt64 := 0x20
def fetchFlagDatagram : UInt64 := 0x40

/-- The End of Range markers (§11.4.1.2). -/
def fetchEndOfNonExistentRange : UInt64 := 0x8C
def fetchEndOfUnknownRange : UInt64 := 0x10C
def fetchEndOfTimedOutRange : UInt64 := 0x20C

/-- `FetchSubgroupIDMode`, the two low bits of the flags. -/
def fetchSubgroupIDZero : UInt64 := 0x00
def fetchSubgroupIDPrior : UInt64 := 0x01
def fetchSubgroupIDPriorPlusOne : UInt64 := 0x02
def fetchSubgroupIDExplicit : UInt64 := 0x03

/-- `isEndOfRange`. -/
def isEndOfRange (flags : UInt64) : Bool :=
  flags == fetchEndOfNonExistentRange || flags == fetchEndOfUnknownRange ||
    flags == fetchEndOfTimedOutRange

/-- What `FetchObject.Parse` reports. -/
inductive FetchObjectError
  | wire (err : WireError)
  | endOfRangeGroupID (err : WireError)
  | endOfRangeObjectID (err : WireError)
  | invalidFlags (flags : UInt64)
deriving DecidableEq, Repr, Inhabited

namespace FetchObject

/-- The flag `bit` is set. -/
def has (o : FetchObject) (bit : UInt64) : Bool := o.serializationFlags &&& bit != 0

/-- `IsEndOfNonExistentRange`. -/
def isEndOfNonExistentRange (o : FetchObject) : Bool :=
  o.serializationFlags == fetchEndOfNonExistentRange

/-- `IsEndOfUnknownRange`. -/
def isEndOfUnknownRange (o : FetchObject) : Bool := o.serializationFlags == fetchEndOfUnknownRange

/-- `IsEndOfTimedOutRange`. -/
def isEndOfTimedOutRange (o : FetchObject) : Bool :=
  o.serializationFlags == fetchEndOfTimedOutRange

/-- `IsDatagram`. -/
def isDatagram (o : FetchObject) : Bool := o.has fetchFlagDatagram

/-- `SubgroupMode`. -/
def subgroupMode (o : FetchObject) : UInt64 := o.serializationFlags &&& fetchFlagSubgroupIDMode

/-- `hasSubgroupIDField`. -/
def hasSubgroupIDField (o : FetchObject) : Bool :=
  o.subgroupMode == fetchSubgroupIDExplicit && !o.isDatagram

/-- The flags `Append` writes: with the Datagram bit the subgroup bits are cleared. -/
def wireFlags (o : FetchObject) : UInt64 :=
  if o.has fetchFlagDatagram && decide (o.serializationFlags < 128) then
    o.serializationFlags &&& ~~~fetchFlagSubgroupIDMode
  else o.serializationFlags

/-- `FetchObject.Append`, what it appends. -/
def append (o : FetchObject) : List UInt8 :=
  appendVarint o.wireFlags ++
    if isEndOfRange o.serializationFlags then
      appendVarint o.groupIDDelta ++ appendVarint o.objectIDDelta
    else
      (if o.has fetchFlagGroupIDDelta then appendVarint o.groupIDDelta else []) ++
      ((if o.hasSubgroupIDField then appendVarint o.subgroupID else []) ++
      ((if o.has fetchFlagObjectIDDelta then appendVarint o.objectIDDelta else []) ++
      ((if o.has fetchFlagPriority then [o.publisherPriority] else []) ++
      ((if o.has fetchFlagProperties then appendVarintBytes o.properties else []) ++
      appendVarintBytes o.objectPayload))))

/-- `truncated`: after the flags, a FIN is mid-object. -/
def truncated : WireError → WireError
  | .eof => .unexpectedEOF
  | err => err

/-- A field after the flags. -/
def rest {α : Type} (p : Parser UInt8 WireError α) : Parser UInt8 FetchObjectError α :=
  p.mapError fun err => .wire (truncated err)

/-- `FetchObject.Parse` after the flags, of an Object. -/
def parseObject (maxField : Nat) (flags : UInt64) :
    Parser UInt8 FetchObjectError FetchObject := do
  let o : FetchObject := { serializationFlags := flags }
  let groupIDDelta ← Parser.field (o.has fetchFlagGroupIDDelta) (rest readVarint)
  let subgroupID ← Parser.field o.hasSubgroupIDField (rest readVarint)
  let objectIDDelta ← Parser.field (o.has fetchFlagObjectIDDelta) (rest readVarint)
  let publisherPriority ← Parser.field (o.has fetchFlagPriority) (rest StreamReader.uint8)
  let properties ←
    Parser.field (o.has fetchFlagProperties) (rest (StreamReader.varintBytes maxField))
  let objectPayload ← rest (StreamReader.varintBytes maxField)
  return ⟨flags, groupIDDelta, subgroupID, objectIDDelta, publisherPriority, properties,
    objectPayload⟩

/-- `FetchObject.Parse` after the flags, of an End of Range marker. -/
def parseEndOfRange (flags : UInt64) : Parser UInt8 FetchObjectError FetchObject := do
  let groupID ← readVarint.mapError fun err => .endOfRangeGroupID (truncated err)
  let objectID ← readVarint.mapError fun err => .endOfRangeObjectID (truncated err)
  return { serializationFlags := flags, groupIDDelta := groupID, objectIDDelta := objectID }

/-- `FetchObject.Parse`. -/
def parse (maxField : Nat) : Parser UInt8 FetchObjectError FetchObject := do
  let flags ← readVarint.mapError FetchObjectError.wire
  -- `checkFetchFlags`
  if decide (128 ≤ flags) && !isEndOfRange flags then throw (.invalidFlags flags)
  else if isEndOfRange flags then parseEndOfRange flags
  else parseObject maxField flags

/-! ## Reading back -/

/-- An Object written with all that `Parse` can know of it: the fields its flags leave out are
    zero, and those with a length fit. -/
structure Canonical (maxField : Nat) (o : FetchObject) : Prop where
  flags : o.serializationFlags < 128
  datagram : o.wireFlags = o.serializationFlags
  groupIDDelta : o.has fetchFlagGroupIDDelta = false → o.groupIDDelta = 0
  subgroupID : o.hasSubgroupIDField = false → o.subgroupID = 0
  objectIDDelta : o.has fetchFlagObjectIDDelta = false → o.objectIDDelta = 0
  publisherPriority : o.has fetchFlagPriority = false → o.publisherPriority = 0
  properties : o.has fetchFlagProperties = false → o.properties = []
  propertiesFit : o.properties.length ≤ maxField
  payloadFits : o.objectPayload.length ≤ maxField

theorem isEndOfRange_of_lt {flags : UInt64} (h : flags < 128) : isEndOfRange flags = false := by
  have hne {x : UInt64} (hx : 128 ≤ x) : (flags == x) = false := by
    rw [beq_eq_false_iff_ne]
    intro heq
    exact absurd (heq ▸ h) (UInt64.not_lt.mpr hx)
  simp [isEndOfRange, hne (x := fetchEndOfNonExistentRange) (by decide),
    hne (x := fetchEndOfUnknownRange) (by decide), hne (x := fetchEndOfTimedOutRange) (by decide)]

theorem reads_rest {α : Type} {p : Parser UInt8 WireError α} {xs : List UInt8} {a : α}
    (hp : Reads p xs a) : Reads (rest p) xs a := hp.mapError _

variable {maxField : Nat} {o : FetchObject}

theorem reads_parse (h : o.Canonical maxField) (hmax : maxField < 2 ^ 64) :
    Reads (parse maxField) o.append o := by
  have hrange := isEndOfRange_of_lt h.flags
  have hprops := StreamReader.reads_varintBytes h.propertiesFit (h.propertiesFit.trans_lt hmax)
  have hpayload := StreamReader.reads_varintBytes h.payloadFits (h.payloadFits.trans_lt hmax)
  unfold parse append
  rw [h.datagram, hrange]
  refine ((reads_readVarint _).mapError _).bind ?_
  rw [hrange, decide_eq_false (UInt64.not_le.mpr h.flags)]
  refine ((reads_rest (reads_readVarint _)).field h.groupIDDelta).bind ?_
  refine ((reads_rest (reads_readVarint _)).field h.subgroupID).bind ?_
  refine ((reads_rest (reads_readVarint _)).field h.objectIDDelta).bind ?_
  refine ((reads_rest (StreamReader.reads_uint8 _)).field h.publisherPriority).bind ?_
  refine ((reads_rest hprops).field h.properties).bind ?_
  exact (reads_rest hpayload).map

theorem reads_parse_endOfRange {flags : UInt64} (maxField : Nat) (group object : UInt64)
    (h : isEndOfRange flags = true) :
    Reads (parse maxField) (append ⟨flags, group, 0, object, 0, [], []⟩)
      ⟨flags, group, 0, object, 0, [], []⟩ := by
  have hbig : ¬ flags < 128 := fun hlt => by simp [isEndOfRange_of_lt hlt] at h
  have hflags : wireFlags ⟨flags, group, 0, object, 0, [], []⟩ = flags := by
    simp [wireFlags, hbig]
  unfold parse append
  rw [hflags, h]
  refine ((reads_readVarint _).mapError _).bind ?_
  rw [h, Bool.not_true, Bool.and_false]
  refine Reads.bind ((reads_readVarint _).mapError _) ?_
  exact ((reads_readVarint _).mapError _).map

/-- **Properties longer than a stream's reader allows are not read back.** -/
theorem parse_fieldTooLarge {large : Nat} (h : o.Canonical large)
    (hprops : o.has fetchFlagProperties = true) (hbig : maxField < o.properties.length)
    (hmax : o.properties.length < 2 ^ 64) : parse maxField o.append =
      .error (.wire (.fieldTooLarge (UInt64.ofNat o.properties.length))) := by
  have hrange := isEndOfRange_of_lt h.flags
  unfold parse append
  rw [h.datagram, hrange]
  refine ((reads_readVarint _).mapError _).bind_error ?_
  rw [hrange, decide_eq_false (UInt64.not_le.mpr h.flags)]
  refine ((reads_rest (reads_readVarint _)).field h.groupIDDelta).bind_error ?_
  refine ((reads_rest (reads_readVarint _)).field h.subgroupID).bind_error ?_
  refine ((reads_rest (reads_readVarint _)).field h.objectIDDelta).bind_error ?_
  refine ((reads_rest (StreamReader.reads_uint8 _)).field h.publisherPriority).bind_error ?_
  apply Parser.bind_fails
  show Parser.field (o.has fetchFlagProperties) (rest (StreamReader.varintBytes maxField)) _ = _
  rw [hprops]
  exact Parser.mapError_fails (StreamReader.varintBytes_fieldTooLarge hbig hmax _) _

end FetchObject
end MoqGo.Message
