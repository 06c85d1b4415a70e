import MoqGo.Message.FetchObject
import MoqGo.Message.Subgroup

/-!
# Subgroup streams on the wire (`pkg/moqt/message/subgroup.go`, `subgroup_object.go`)

The header's first byte says which of its fields follow, two of its flags inverted, and whether
every Object of the stream carries Properties (§11.3.1). An Object's payload length says whether
a status follows or a payload, never both.

**`reads_header`**, **`reads_parseHeader`**, **`reads_parsePayload`**: both are read back as they
were written, up to what the flags keep off the wire.
-/

namespace MoqGo.Message

open Lib Wire

/-! ## The header -/

/-- `SubgroupHeader` whole, with the two fields that only the wire reads. -/
structure WireSubgroupHeader extends SubgroupHeader where
  inlinePriority : Bool := false
  trackAlias : UInt64 := 0
deriving DecidableEq, Repr, Inhabited

def subgroupBitProperties : UInt64 := 0x01
def subgroupModeMask : UInt64 := 0x06
def subgroupModeShift : UInt64 := 1
def subgroupBitEndOfGroup : UInt64 := 0x08
def subgroupBitMandatory : UInt64 := 0x10
def subgroupBitDefaultPriority : UInt64 := 0x20
def subgroupBitFirstObject : UInt64 := 0x40

namespace SubgroupIDMode

/-- The two bits of a mode. -/
def bits : SubgroupIDMode → UInt64
  | implicitZero => 0b00
  | implicitFirstObject => 0b01
  | explicit => 0b10

/-- The mode of two bits. `0b11` is reserved, and refused before. -/
def ofBits (b : UInt64) : SubgroupIDMode :=
  if b = 0b00 then implicitZero
  else if b = 0b01 then implicitFirstObject
  else explicit

end SubgroupIDMode

/-- `IsSubgroupHeaderType`. -/
def isSubgroupHeaderType (t : UInt64) : Bool :=
  if 0x7F < t then false
  else if t &&& subgroupBitMandatory == 0 || t &&& 0x80 != 0 then false
  else if t &&& subgroupModeMask == subgroupModeMask then false
  else true

/-- What reading a header reports. -/
inductive SubgroupHeaderError
  | type (err : WireError)
  | invalidType (t : UInt64)
  | trackAlias (err : WireError)
  | groupID (err : WireError)
  | subgroupID (err : WireError)
  | publisherPriority (err : WireError)
deriving DecidableEq, Repr, Inhabited

/-- `DecodeSubgroupHeaderType`. -/
def decodeSubgroupHeaderType (t : UInt64) : Except SubgroupHeaderError WireSubgroupHeader :=
  if !isSubgroupHeaderType t then .error (.invalidType t)
  else
    .ok
      { properties := t &&& subgroupBitProperties != 0
        subgroupIDMode := .ofBits ((t &&& subgroupModeMask) >>> subgroupModeShift)
        endOfGroup := t &&& subgroupBitEndOfGroup != 0
        inlinePriority := t &&& subgroupBitDefaultPriority == 0
        replayingSubgroup := t &&& subgroupBitFirstObject == 0 }

namespace WireSubgroupHeader

/-- `SubgroupHeader.Type`. -/
def type (h : WireSubgroupHeader) : UInt64 :=
  subgroupBitMandatory |||
    (if h.properties then subgroupBitProperties else 0) |||
    ((h.subgroupIDMode.bits &&& 0b11) <<< subgroupModeShift) |||
    (if h.endOfGroup then subgroupBitEndOfGroup else 0) |||
    (if !h.inlinePriority then subgroupBitDefaultPriority else 0) |||
    (if !h.replayingSubgroup then subgroupBitFirstObject else 0)

/-- What of a header the wire carries: the Subgroup ID in explicit mode only, and the Publisher
    Priority only inline. -/
def onWire (h : WireSubgroupHeader) : WireSubgroupHeader :=
  { h with
    subgroupID := if h.subgroupIDMode = .explicit then h.subgroupID else 0
    publisherPriority := if h.inlinePriority then h.publisherPriority else 0 }

end WireSubgroupHeader

/-- `WriteSubgroupHeader`, what it writes. -/
def writeSubgroupHeader (h : WireSubgroupHeader) : List UInt8 :=
  appendVarint h.type ++ (appendVarint h.trackAlias ++ (appendVarint h.groupID ++
    ((if h.subgroupIDMode = .explicit then appendVarint h.subgroupID else []) ++
    (if h.inlinePriority then [h.publisherPriority] else []))))

/-- `ReadSubgroupHeader`, after the type. -/
def readSubgroupHeader (typ : UInt64) :
    Parser UInt8 SubgroupHeaderError WireSubgroupHeader := do
  let h ← fun bs => (decodeSubgroupHeaderType typ).map (·, bs)
  let trackAlias ← readVarint.mapError SubgroupHeaderError.trackAlias
  let groupID ← readVarint.mapError SubgroupHeaderError.groupID
  let subgroupID ← Parser.field (decide (h.subgroupIDMode = .explicit))
    (readVarint.mapError SubgroupHeaderError.subgroupID)
  let publisherPriority ← Parser.field h.inlinePriority
    (StreamReader.uint8.mapError SubgroupHeaderError.publisherPriority)
  return { h with
    trackAlias := trackAlias
    groupID := groupID
    subgroupID := subgroupID
    publisherPriority := publisherPriority }

/-- `ReadDataStreamType` and `ReadSubgroupHeader`. -/
def readDataStreamHeader : Parser UInt8 SubgroupHeaderError WireSubgroupHeader := do
  let typ ← readVarint.mapError SubgroupHeaderError.type
  readSubgroupHeader typ

theorem decode_type (h : WireSubgroupHeader) :
    decodeSubgroupHeaderType h.type = .ok
      { properties := h.properties
        subgroupIDMode := h.subgroupIDMode
        endOfGroup := h.endOfGroup
        inlinePriority := h.inlinePriority
        replayingSubgroup := h.replayingSubgroup } := by
  obtain ⟨⟨properties, mode, endOfGroup, replaying, _, _, _⟩, inline, _⟩ := h
  -- no other field counts, and so there are 48 cases
  change decodeSubgroupHeaderType (WireSubgroupHeader.type
    ⟨⟨properties, mode, endOfGroup, replaying, 0, 0, 0⟩, inline, 0⟩) =
      .ok ⟨⟨properties, mode, endOfGroup, replaying, 0, 0, 0⟩, inline, 0⟩
  revert properties endOfGroup replaying inline
  cases mode <;> decide +kernel

theorem reads_header (h : WireSubgroupHeader) :
    Reads readDataStreamHeader (writeSubgroupHeader h) h.onWire := by
  have hflags : Reads
      (fun bs => (decodeSubgroupHeaderType h.type).map (·, bs) :
        Parser UInt8 SubgroupHeaderError WireSubgroupHeader) []
      { properties := h.properties
        subgroupIDMode := h.subgroupIDMode
        endOfGroup := h.endOfGroup
        inlinePriority := h.inlinePriority
        replayingSubgroup := h.replayingSubgroup } := by
    intro rest
    rw [decode_type]
    rfl
  have hsubgroup : Reads
      (Parser.field (decide (h.subgroupIDMode = .explicit))
        (readVarint.mapError SubgroupHeaderError.subgroupID))
      (if h.subgroupIDMode = .explicit then appendVarint h.subgroupID else [])
      h.onWire.subgroupID := by
    unfold WireSubgroupHeader.onWire
    by_cases hmode : h.subgroupIDMode = .explicit
    · rw [if_pos hmode, if_pos hmode, decide_eq_true hmode]
      exact (reads_readVarint _).mapError _
    · rw [if_neg hmode, if_neg hmode, decide_eq_false hmode]
      exact reads_pure _
  have hpriority : Reads
      (Parser.field h.inlinePriority
        (StreamReader.uint8.mapError SubgroupHeaderError.publisherPriority))
      (if h.inlinePriority then [h.publisherPriority] else []) h.onWire.publisherPriority := by
    unfold WireSubgroupHeader.onWire
    cases h.inlinePriority with
    | true => exact (StreamReader.reads_uint8 _).mapError _
    | false => exact reads_pure _
  refine ((reads_readVarint _).mapError _).bind ?_
  refine hflags.bind ?_
  refine ((reads_readVarint _).mapError _).bind ?_
  refine ((reads_readVarint _).mapError _).bind ?_
  refine hsubgroup.bind ?_
  exact hpriority.map

/-! ## Objects -/

/-- What parsing an Object reports. -/
inductive SubgroupObjectError
  | objectIDDelta (err : WireError)
  | properties (err : WireError)
  | payloadLength (err : WireError)
  | objectStatus (err : WireError)
  | payload (err : WireError)
deriving DecidableEq, Repr, Inhabited

/-- What `SubgroupObject.Validate` reports. -/
inductive SubgroupObjectInvalid
  | status (status : UInt64)
  | carriesProperties (status : UInt64)
deriving DecidableEq, Repr, Inhabited

namespace SubgroupObject

def withDelta (o : SubgroupObject) (delta : UInt64) : SubgroupObject :=
  { o with objectIDDelta := delta }

/-- `SubgroupObject.Append`, what it appends. -/
def append (o : SubgroupObject) (hasProperties : Bool) : List UInt8 :=
  appendVarint o.objectIDDelta ++
    ((if hasProperties then appendVarintBytes o.properties else []) ++
    (appendVarint (UInt64.ofNat o.payload.length) ++
    (if o.payload.length = 0 then appendVarint o.objectStatus else o.payload)))

/-- `SubgroupObject.ParseHeader`: the Object without its payload, and the payload's length. -/
def parseHeader (maxField : Nat) (hasProperties : Bool) :
    Parser UInt8 SubgroupObjectError (SubgroupObject × UInt64) := do
  let delta ← readVarint.mapError SubgroupObjectError.objectIDDelta
  let props ← Parser.field hasProperties
    ((StreamReader.varintBytes maxField).mapError fun err =>
      .properties (FetchObject.truncated err))
  let payloadLen ← readVarint.mapError fun err => .payloadLength (FetchObject.truncated err)
  let status ← Parser.field (payloadLen == 0)
    (readVarint.mapError fun err => .objectStatus (FetchObject.truncated err))
  return (⟨delta, props, [], status⟩, payloadLen)

/-- `SubgroupObject.ParsePayload`. -/
def parsePayload (maxField : Nat) (o : SubgroupObject) (payloadLen : UInt64) :
    Parser UInt8 SubgroupObjectError SubgroupObject :=
  if payloadLen = 0 then pure o
  else do
    let payload ← (StreamReader.fixedBytes maxField payloadLen).mapError fun err =>
      .payload (FetchObject.truncated err)
    return { o with payload := payload }

/-- `SubgroupObject.Validate`. -/
def validate (o : SubgroupObject) : Except SubgroupObjectInvalid Unit :=
  if o.payload.length = 0 then
    if o.objectStatus ≠ objectStatusNormal ∧ o.objectStatus ≠ objectStatusEndOfGroup ∧
        o.objectStatus ≠ objectStatusEndOfTrack then
      .error (.status o.objectStatus)
    else if o.objectStatus ≠ objectStatusNormal ∧ 0 < o.properties.length then
      .error (.carriesProperties o.objectStatus)
    else .ok ()
  else .ok ()

/-- The bytes of an Object up to its payload. -/
def appendHeader (o : SubgroupObject) (hasProperties : Bool) : List UInt8 :=
  appendVarint o.objectIDDelta ++
    ((if hasProperties then appendVarintBytes o.properties else []) ++
    (appendVarint (UInt64.ofNat o.payload.length) ++
    (if o.payload.length = 0 then appendVarint o.objectStatus else [])))

theorem append_eq (o : SubgroupObject) (hasProperties : Bool) :
    o.append hasProperties = o.appendHeader hasProperties ++ o.payload := by
  unfold append appendHeader
  split_ifs with hprops hlen hlen
  all_goals simp_all

def wireStatus (o : SubgroupObject) : UInt64 :=
  if o.payload.length = 0 then o.objectStatus else objectStatusNormal

/-- An Object whose parts fit the fields of a stream's reader. -/
structure Fits (maxField : Nat) (hasProperties : Bool) (o : SubgroupObject) : Prop where
  absent : hasProperties = false → o.properties = []
  properties : o.properties.length ≤ maxField
  payload : o.payload.length ≤ maxField

variable {maxField : Nat} {hasProperties : Bool} {o : SubgroupObject}

section

variable (h : o.Fits maxField hasProperties) (hmax : maxField < 2 ^ 64)
include h hmax

theorem Fits.payloadLength_eq_zero : UInt64.ofNat o.payload.length = 0 ↔ o.payload.length = 0 := by
  rw [← UInt64.toNat_inj, UInt64.toNat_ofNat_of_lt' (h.payload.trans_lt hmax)]
  rfl

theorem reads_parseHeader :
    Reads (parseHeader maxField hasProperties) (o.appendHeader hasProperties)
      (⟨o.objectIDDelta, o.properties, [], o.wireStatus⟩, UInt64.ofNat o.payload.length) := by
  have hprops := StreamReader.reads_varintBytes h.properties (h.properties.trans_lt hmax)
  have hzero : (UInt64.ofNat o.payload.length == 0) = decide (o.payload.length = 0) := by
    rw [Bool.eq_iff_iff, beq_iff_eq, decide_eq_true_iff]
    exact h.payloadLength_eq_zero hmax
  have hstatus : Reads
      (Parser.field (UInt64.ofNat o.payload.length == 0)
        (readVarint.mapError fun err =>
          SubgroupObjectError.objectStatus (FetchObject.truncated err)))
      (if o.payload.length = 0 then appendVarint o.objectStatus else []) o.wireStatus := by
    rw [hzero]
    unfold wireStatus
    by_cases hempty : o.payload.length = 0
    · rw [if_pos hempty, if_pos hempty, decide_eq_true hempty]
      exact (reads_readVarint _).mapError _
    · rw [if_neg hempty, if_neg hempty, decide_eq_false hempty]
      exact reads_pure _
  refine ((reads_readVarint _).mapError _).bind ?_
  refine ((hprops.mapError _).field h.absent).bind ?_
  refine ((reads_readVarint _).mapError _).bind ?_
  exact hstatus.map

theorem reads_parsePayload :
    Reads
      (parsePayload maxField ⟨o.objectIDDelta, o.properties, [], o.wireStatus⟩
        (UInt64.ofNat o.payload.length))
      o.payload { o with objectStatus := o.wireStatus } := by
  have hpayload := StreamReader.reads_fixedBytes h.payload (h.payload.trans_lt hmax)
  unfold parsePayload
  by_cases hzero : UInt64.ofNat o.payload.length = 0
  · have hempty : o.payload = [] :=
      List.length_eq_zero_iff.mp ((h.payloadLength_eq_zero hmax).mp hzero)
    rw [if_pos hzero, hempty]
    exact reads_pure _
  · rw [if_neg hzero]
    exact (hpayload.mapError _).map

end

end SubgroupObject
end MoqGo.Message
