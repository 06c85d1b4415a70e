import MoqGo.Message.ParamCodec
import MoqGo.Message.Subgroup

/-!
# Object datagrams on the wire (`pkg/moqt/message/datagram.go`)

One Object in one QUIC datagram (§11.2). The Type says which of the fields follow, and the last of
them has no length: a payload goes up to the end of the datagram. `Parse` refuses what `Validate`
refuses, the Type before any field is read, since the layout depends on it.

**`datagram_roundTrip`**: a valid datagram that sets no field its Type leaves out is read back as
it is, and whatever is read is such a datagram.
-/

namespace MoqGo.Message

open Lib Wire

def datagramPropertiesBit : UInt64 := 0x01
def datagramEndOfGroupBit : UInt64 := 0x02
def datagramZeroObjectIDBit : UInt64 := 0x04
def datagramDefaultPriorityBit : UInt64 := 0x08
def datagramStatusBit : UInt64 := 0x20

def datagramTypeMax : UInt64 := 0x0F
def datagramTypeStatusMin : UInt64 := 0x20
def datagramTypeStatusMax : UInt64 := 0x2F

/-- `ObjectDatagram`. -/
structure ObjectDatagram where
  type : UInt64 := 0
  trackAlias : UInt64 := 0
  groupID : UInt64 := 0
  objectID : UInt64 := 0
  publisherPriority : UInt8 := 0
  properties : List UInt8 := []
  objectStatus : UInt64 := 0
  objectPayload : List UInt8 := []
deriving DecidableEq, Repr

/-- `IsValidDatagramType`. -/
def isValidDatagramType (typ : UInt64) : Bool :=
  if datagramTypeStatusMax < typ ∨ datagramTypeMax < typ ∧ typ < datagramTypeStatusMin then false
  else if typ &&& datagramStatusBit != 0 && typ &&& datagramEndOfGroupBit != 0 then false
  else true

/-- What `Validate` reports. -/
inductive DatagramInvalid
  | type (typ : UInt64)
  | zeroLengthProperties
  | unknownStatus (status : UInt64)
  | statusWithProperties (status : UInt64)
deriving DecidableEq, Repr

/-- What `Parse` reports. -/
inductive DatagramError
  | type (err : WireError)
  | trackAlias (err : WireError)
  | groupID (err : WireError)
  | objectID (err : WireError)
  | publisherPriority (err : WireError)
  | properties (err : WireError)
  | objectStatus (err : WireError)
  | trailing (remaining : Nat)
  | invalid (err : DatagramInvalid)
deriving DecidableEq, Repr

namespace ObjectDatagram

def hasProperties (d : ObjectDatagram) : Bool := d.type &&& datagramPropertiesBit != 0
def hasZeroObjectID (d : ObjectDatagram) : Bool := d.type &&& datagramZeroObjectIDBit != 0
def hasDefaultPriority (d : ObjectDatagram) : Bool := d.type &&& datagramDefaultPriorityBit != 0
def hasStatus (d : ObjectDatagram) : Bool := d.type &&& datagramStatusBit != 0

/-- `Validate`. -/
def validate (d : ObjectDatagram) : Except DatagramInvalid Unit :=
  if !isValidDatagramType d.type then .error (.type d.type)
  else if d.hasProperties && d.properties.isEmpty then .error .zeroLengthProperties
  else if d.hasStatus then
    if d.objectStatus ≠ objectStatusNormal ∧ d.objectStatus ≠ objectStatusEndOfGroup ∧
        d.objectStatus ≠ objectStatusEndOfTrack then .error (.unknownStatus d.objectStatus)
    else if d.hasProperties ∧ d.objectStatus ≠ objectStatusNormal then
      .error (.statusWithProperties d.objectStatus)
    else .ok ()
  else .ok ()

/-- `Append`, its last field: the Object Status, or the payload. -/
def appendEnd (d : ObjectDatagram) : List UInt8 :=
  if d.hasStatus then appendVarint d.objectStatus else d.objectPayload

/-- `Append`, what it appends. -/
def append (d : ObjectDatagram) : List UInt8 :=
  appendVarint d.type ++ (appendVarint d.trackAlias ++ (appendVarint d.groupID ++
    ((if !d.hasZeroObjectID then appendVarint d.objectID else []) ++
    ((if !d.hasDefaultPriority then [d.publisherPriority] else []) ++
    ((if d.hasProperties then appendVarintBytes d.properties else []) ++ d.appendEnd)))))

/-- `Parse`, its last field. Nothing may follow an Object Status. -/
def parseEnd (d : ObjectDatagram) : Parser UInt8 DatagramError (UInt64 × List UInt8) :=
  if d.hasStatus then do
    let objectStatus ← parseVarint.mapError DatagramError.objectStatus
    fun bs => if bs.isEmpty then .ok ((objectStatus, []), bs) else .error (.trailing bs.length)
  else do
    let objectPayload ← Reader.remainingBytes
    return (0, objectPayload)

/-- `Parse` after the Type, into a fresh value. -/
def parseFields (d : ObjectDatagram) : Parser UInt8 DatagramError ObjectDatagram := do
  let trackAlias ← parseVarint.mapError .trackAlias
  let groupID ← parseVarint.mapError .groupID
  let objectID ← Parser.field (!d.hasZeroObjectID) (parseVarint.mapError .objectID)
  let publisherPriority ← Parser.field (!d.hasDefaultPriority)
    (Reader.uint8.mapError .publisherPriority)
  let properties ← Parser.field d.hasProperties (Reader.varintBytes.mapError .properties)
  let last ← d.parseEnd
  let d : ObjectDatagram := ⟨d.type, trackAlias, groupID, objectID, publisherPriority, properties,
    last.1, last.2⟩
  match d.validate with
  | .ok () => return d
  | .error err => throw (.invalid err)

/-- `Parse`, into a fresh value. -/
def parse : Parser UInt8 DatagramError ObjectDatagram := do
  let type ← parseVarint.mapError .type
  if isValidDatagramType type then parseFields { type := type } else throw (.invalid (.type type))

/-- No field is set that the Type leaves out. -/
structure Plain (d : ObjectDatagram) : Prop where
  objectID : d.hasZeroObjectID = true → d.objectID = 0
  publisherPriority : d.hasDefaultPriority = true → d.publisherPriority = 0
  properties : d.hasProperties = false → d.properties = []
  objectStatus : d.hasStatus = false → d.objectStatus = 0
  objectPayload : d.hasStatus = true → d.objectPayload = []

variable {d : ObjectDatagram}

theorem isValidDatagramType_of_validate (h : d.validate = .ok ()) :
    isValidDatagramType d.type = true := by
  unfold validate at h
  split_ifs at h with htype <;> simpa using htype

theorem ends_parseEnd (h : d.Plain) :
    Ends d.parseEnd d.appendEnd (d.objectStatus, d.objectPayload) := by
  unfold parseEnd appendEnd
  cases hstatus : d.hasStatus with
  | true =>
    rw [if_pos rfl, if_pos rfl, ← List.append_nil (appendVarint _), h.objectPayload hstatus]
    exact ((reads_parseVarint _).mapError _).bind_ends rfl
  | false =>
    rw [if_neg nofun, if_neg nofun, h.objectStatus hstatus]
    exact (Reader.ends_remainingBytes _).map

theorem ends_parse (h : d.Plain) (hvalid : d.validate = .ok ())
    (hlen : d.properties.length < 2 ^ 64) : Ends parse d.append d := by
  refine ((reads_parseVarint _).mapError _).bind_ends ?_
  rw [if_pos (isValidDatagramType_of_validate hvalid), show parseFields { type := d.type } =
    parseFields d from rfl]
  refine ((reads_parseVarint _).mapError _).bind_ends ?_
  refine ((reads_parseVarint _).mapError _).bind_ends ?_
  refine (((reads_parseVarint _).mapError _).field fun habs => ?_).bind_ends ?_
  · exact h.objectID (by simpa using habs)
  refine (((Reader.reads_uint8 _).mapError _).field fun habs => ?_).bind_ends ?_
  · exact h.publisherPriority (by simpa using habs)
  refine (((Reader.reads_varintBytes hlen).mapError _).field h.properties).bind_ends ?_
  refine (ends_parseEnd h).bind ?_
  simp only [hvalid]
  rfl

theorem yields_parseEnd (d : ObjectDatagram) : Yields d.parseEnd fun last _ =>
    (d.hasStatus = false → last.1 = 0) ∧ (d.hasStatus = true → last.2 = []) := by
  unfold parseEnd
  cases d.hasStatus with
  | true =>
    refine (yields_parseVarint.mapError _).bind fun v _ _ => fun bs last ys hlast => ?_
    split_ifs at hlast
    cases hlast
    exact ⟨0, ⟨nofun, fun _ => rfl⟩, (Nat.zero_add _).le⟩
  | false =>
    refine Reader.yields_remainingBytes.bind fun p _ _ => yields_pure ⟨fun _ => rfl, nofun⟩

/-- Whatever is read is valid, and sets no field that its Type leaves out. -/
theorem yields_parse : Yields parse fun d _ =>
    d.Plain ∧ d.validate = .ok () ∧ d.properties.length < 2 ^ 64 := by
  refine (yields_parseVarint.mapError _).bind fun type _ _ => ?_
  split_ifs
  · refine (yields_parseVarint.mapError _).bind fun trackAlias _ _ => ?_
    refine (yields_parseVarint.mapError _).bind fun groupID _ _ => ?_
    refine ((yields_parseVarint.mapError _).field _).bind fun objectID _ hobject => ?_
    refine ((Reader.yields_uint8.mapError _).field _).bind fun priority _ hpriority => ?_
    refine ((Reader.yields_varintBytes.mapError _).field _).bind fun properties _ hprops => ?_
    refine (yields_parseEnd _).bind fun last _ hlast => ?_
    dsimp only
    split
    · next hvalid =>
      have hlen : properties.length < 2 ^ 64 := by
        split_ifs at hprops
        · exact hprops.1
        · rw [hprops.1]
          exact Nat.two_pow_pos 64
      refine yields_pure ⟨⟨fun h => ?_, fun h => ?_, ?_, hlast.1, hlast.2⟩, hvalid, hlen⟩
      · exact field_absent hobject (congrArg not h)
      · exact field_absent hpriority (congrArg not h)
      · exact field_absent hprops
    · exact yields_throw
  · exact yields_throw

/-- **The datagram codec round-trips.** A valid datagram that sets no field its Type leaves out, as
    long as a Go slice can be, is read back as it was written; and whatever is read from any bytes
    is valid, and is read back from what it is written as. -/
theorem datagram_roundTrip (d : ObjectDatagram) :
    (d.validate = .ok () → d.Plain → d.properties.length < 2 ^ 64 →
        parse d.append = .ok (d, [])) ∧
      ∀ bs rest, parse bs = .ok (d, rest) →
        d.validate = .ok () ∧ parse d.append = .ok (d, []) := by
  refine ⟨fun hvalid h hlen => ends_parse h hvalid hlen, fun bs rest hparse => ?_⟩
  obtain ⟨_, ⟨h, hvalid, hlen⟩, -⟩ := yields_parse bs d rest hparse
  exact ⟨hvalid, ends_parse h hvalid hlen⟩

def endOfGroupZero : ObjectDatagram := { type := 0x2C, groupID := 7, objectStatus := 3 }

theorem datagram_roundTrip_endOfGroupZero :
    parse endOfGroupZero.append = .ok (endOfGroupZero, []) ∧
      parse [0x2C, 0, 7, 3] = .ok (endOfGroupZero, []) ∧ endOfGroupZero.validate = .ok () := by
  have hparse : parse [0x2C, 0, 7, 3] = .ok (endOfGroupZero, []) := rfl
  have hplain : endOfGroupZero.Plain :=
    ⟨fun _ => rfl, fun _ => rfl, fun _ => rfl, nofun, fun _ => rfl⟩
  obtain ⟨hwritten, hread⟩ := datagram_roundTrip endOfGroupZero
  exact ⟨hwritten rfl hplain (Nat.two_pow_pos 64), hparse, (hread _ _ hparse).1⟩

end ObjectDatagram
end MoqGo.Message
