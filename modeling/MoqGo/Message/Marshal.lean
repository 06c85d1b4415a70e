import MoqGo.Message.Control

/-!
# Marshalling control messages (`pkg/moqt/message/types.go`)

`Marshal` puts a message into a frame, `Parse` takes one out of a stream, finds the layout by the
type and refuses what `Validate` refuses. **A list of messages that keep the limits is read back
from the bytes they were marshalled to** (`control_messages_round_trip`), and every message that
`Parse` returns is such a message. So nothing a peer can send and get accepted is lost when the
relay sends it on.
-/

namespace MoqGo.Message
namespace Control

open Wire List

/-! ## Types -/

/-- `Type`, as far as `newMessage` knows it. -/
inductive MessageType
  | setup
  | goaway
  | subscribe
  | subscribeOK
  | publish
  | publishStateNotify
  | publishDone
  | requestUpdate
  | requestOK
  | requestError
  | fetch
  | fetchOK
  | trackStatus
  | publishNamespace
  | namespaceEntry
  | namespaceDone
  | subscribeNamespace
  | subscribeTracks
  | publishSkipped
deriving DecidableEq, Repr

namespace MessageType

/-- The wire value. -/
def code : MessageType → UInt64
  | .setup => 0x2F00
  | .goaway => 0x10
  | .subscribe => 0x03
  | .subscribeOK => 0x04
  | .publish => 0x1D
  | .publishStateNotify => 0x22
  | .publishDone => 0x0B
  | .requestUpdate => 0x02
  | .requestOK => 0x07
  | .requestError => 0x05
  | .fetch => 0x16
  | .fetchOK => 0x18
  | .trackStatus => 0x0D
  | .publishNamespace => 0x06
  | .namespaceEntry => 0x08
  | .namespaceDone => 0x0E
  | .subscribeNamespace => 0x50
  | .subscribeTracks => 0x51
  | .publishSkipped => 0x0F

/-- All of them, in the order of the `switch` in `newMessage`. -/
def all : List MessageType :=
  [.setup, .goaway, .subscribe, .subscribeOK, .publish, .publishStateNotify, .publishDone,
    .requestUpdate, .requestOK, .requestError, .fetch, .fetchOK, .trackStatus, .publishNamespace,
    .namespaceEntry, .namespaceDone, .subscribeNamespace, .subscribeTracks, .publishSkipped]

end MessageType

/-- `newMessage`: the type of the message it makes. -/
def newMessage (t : UInt64) : Option MessageType :=
  MessageType.all.find? fun ty => ty.code == t

theorem newMessage_code (ty : MessageType) : newMessage ty.code = some ty := by
  cases ty <;> rfl

/-! ## Messages -/

/-- `Message`. -/
inductive ControlMessage
  | setup (m : Setup)
  | goaway (m : Goaway)
  | subscribe (m : Subscribe)
  | subscribeOK (m : SubscribeOK)
  | publish (m : Publish)
  | publishStateNotify (m : PublishStateNotify)
  | publishDone (m : PublishDone)
  | requestUpdate (m : RequestUpdate)
  | requestOK (m : RequestOK)
  | requestError (m : RequestError)
  | fetch (m : Fetch)
  | fetchOK (m : FetchOK)
  | trackStatus (m : TrackStatus)
  | publishNamespace (m : PublishNamespace)
  | namespaceEntry (m : Namespace)
  | namespaceDone (m : NamespaceDone)
  | subscribeNamespace (m : SubscribeNamespace)
  | subscribeTracks (m : SubscribeTracks)
  | publishSkipped (m : PublishSkipped)
deriving DecidableEq, Repr

namespace ControlMessage

/-- `Message.Type`. -/
def type : ControlMessage → MessageType
  | setup _ => .setup
  | goaway _ => .goaway
  | subscribe _ => .subscribe
  | subscribeOK _ => .subscribeOK
  | publish _ => .publish
  | publishStateNotify _ => .publishStateNotify
  | publishDone _ => .publishDone
  | requestUpdate _ => .requestUpdate
  | requestOK _ => .requestOK
  | requestError _ => .requestError
  | fetch _ => .fetch
  | fetchOK _ => .fetchOK
  | trackStatus _ => .trackStatus
  | publishNamespace _ => .publishNamespace
  | namespaceEntry _ => .namespaceEntry
  | namespaceDone _ => .namespaceDone
  | subscribeNamespace _ => .subscribeNamespace
  | subscribeTracks _ => .subscribeTracks
  | publishSkipped _ => .publishSkipped

/-- `Message.Append`. -/
def append : ControlMessage → List UInt8
  | setup m | goaway m | subscribe m | subscribeOK m | publish m | publishStateNotify m
  | publishDone m | requestUpdate m | requestOK m | requestError m | fetch m | fetchOK m
  | trackStatus m | publishNamespace m | namespaceEntry m | namespaceDone m
  | subscribeNamespace m | subscribeTracks m | publishSkipped m => m.append

/-- `Validate`, of the messages that have it. -/
def validate : ControlMessage → Except ValidateError Unit
  | subscribe m | publish m | requestError m | fetch m | trackStatus m => m.validate
  | _ => .ok ()

/-- The limits of the fields on the wire. -/
def Within : ControlMessage → Prop
  | setup m | goaway m | subscribe m | publish m | requestError m | fetch m | trackStatus m
  | publishNamespace m | subscribeNamespace m | subscribeTracks m => m.Within
  | subscribeOK m | publishStateNotify m | requestUpdate m | requestOK m | fetchOK m =>
    Registered m.parameters
  | publishDone m => m.errorReason.length ≤ maxReasonPhraseBytes
  | namespaceEntry m | namespaceDone m | publishSkipped m => m.trackNamespaceSuffix.Within

/-- A message with its Setup Options and its Parameters changed. -/
def mapLists (f : List KVPair → List KVPair) (g : List WireParameter → List WireParameter) :
    ControlMessage → ControlMessage
  | setup m => setup { options := f m.options }
  | subscribe m => subscribe { m with parameters := g m.parameters }
  | subscribeOK m => subscribeOK { m with parameters := g m.parameters }
  | publish m => publish { m with parameters := g m.parameters }
  | publishStateNotify m => publishStateNotify { m with parameters := g m.parameters }
  | requestUpdate m => requestUpdate { m with parameters := g m.parameters }
  | requestOK m => requestOK { m with parameters := g m.parameters }
  | fetch m => fetch { m with parameters := g m.parameters }
  | fetchOK m => fetchOK { m with parameters := g m.parameters }
  | trackStatus m => trackStatus { m with parameters := g m.parameters }
  | publishNamespace m => publishNamespace { m with parameters := g m.parameters }
  | subscribeNamespace m => subscribeNamespace { m with parameters := g m.parameters }
  | subscribeTracks m => subscribeTracks { m with parameters := g m.parameters }
  | m => m

/-- A message as `Parse` returns it. -/
def normal : ControlMessage → ControlMessage := mapLists kvPairsValue paramsValue

/-- A message with its Setup Options and its Parameters stably sorted by type. -/
def sorted : ControlMessage → ControlMessage := mapLists sortKVPairs sortParams

/-- No option or Parameter sets a value field that its type or kind does not use. -/
def Plain (m : ControlMessage) : Prop :=
  m.mapLists (List.map KVPair.value) (List.map WireParameter.value) = m

/-- A message that can be sent. -/
structure Encodable (m : ControlMessage) : Prop where
  within : m.Within
  valid : m.validate = .ok ()
  payload : m.append.length ≤ maxControlMessagePayload

end ControlMessage

/-! ## Payloads -/

/-- `Message.Parse`, of the message that `newMessage` made. -/
def MessageType.parse : MessageType → PayloadParser ControlMessage
  | .setup => do return .setup (← Setup.parse)
  | .goaway => do return .goaway (← Goaway.parse)
  | .subscribe => do return .subscribe (← Subscribe.parse)
  | .subscribeOK => do return .subscribeOK (← SubscribeOK.parse)
  | .publish => do return .publish (← Publish.parse)
  | .publishStateNotify => do return .publishStateNotify (← PublishStateNotify.parse)
  | .publishDone => do return .publishDone (← PublishDone.parse)
  | .requestUpdate => do return .requestUpdate (← RequestUpdate.parse)
  | .requestOK => do return .requestOK (← RequestOK.parse)
  | .requestError => do return .requestError (← RequestError.parse)
  | .fetch => do return .fetch (← Fetch.parse)
  | .fetchOK => do return .fetchOK (← FetchOK.parse)
  | .trackStatus => do return .trackStatus (← TrackStatus.parse)
  | .publishNamespace => do return .publishNamespace (← PublishNamespace.parse)
  | .namespaceEntry => do return .namespaceEntry (← Namespace.parse)
  | .namespaceDone => do return .namespaceDone (← NamespaceDone.parse)
  | .subscribeNamespace => do return .subscribeNamespace (← SubscribeNamespace.parse)
  | .subscribeTracks => do return .subscribeTracks (← SubscribeTracks.parse)
  | .publishSkipped => do return .publishSkipped (← PublishSkipped.parse)

/-- What `Parse` reports. Every error but those of the frame wraps `ErrMalformedMessage`. -/
inductive ParseError
  | frame (err : WireError)
  | unknownType (t : UInt64)
  | parsing (ty : MessageType) (err : MessageError)
  | trailing (ty : MessageType) (n : Nat)
  | validating (ty : MessageType) (err : ValidateError)
deriving DecidableEq, Repr

/-- `ParsePayload`. -/
def parsePayload (t : UInt64) (payload : List UInt8) : Except ParseError ControlMessage :=
  match newMessage t with
  | none => .error (.unknownType t)
  | some ty =>
    match ty.parse payload with
    | .error err => .error (.parsing ty err)
    | .ok (m, rest) =>
      if rest ≠ [] then .error (.trailing ty rest.length)
      else
        match m.validate with
        | .error err => .error (.validating ty err)
        | .ok () => .ok m

/-- `Parse`. -/
def parse : Lib.Parser UInt8 ParseError ControlMessage := do
  let (t, payload) ← readFrame.mapError ParseError.frame
  match parsePayload t payload with
  | .error err => throw err
  | .ok m => return m

/-- `Marshal`, what it writes. -/
def marshal (m : ControlMessage) : Except PayloadTooLarge (List UInt8) :=
  writeFrame m.type.code m.append

/-- The messages one after the other, into one stream. -/
def marshalAll : List ControlMessage → Except PayloadTooLarge (List UInt8)
  | [] => .ok []
  | m :: ms => do
    let frame ← marshal m
    let frames ← marshalAll ms
    return frame ++ frames

/-- `Parse`, called `n` times on one stream; the first error ends it. -/
def parseTimes (n : Nat) : Lib.Parser UInt8 ParseError (List ControlMessage) :=
  Lib.readTimes (fun _ => parse) (fun _ => ()) n ()

/-! ## Round trip -/

namespace ControlMessage

theorem ends_parse {m : ControlMessage} (hm : m.Within) (hlen : m.append.length < 2 ^ 64) :
    Lib.Ends m.type.parse m.append m.normal := by
  cases m with
  | setup m => exact (Setup.coded.ends m hm hlen).map
  | goaway m => exact (Goaway.coded.ends m hm hlen).map
  | subscribe m | fetch m | trackStatus m => exact (TrackRequest.coded.ends m hm hlen).map
  | subscribeOK m => exact (SubscribeOK.coded.ends m hm hlen).map
  | publish m => exact (Publish.coded.ends m hm hlen).map
  | publishStateNotify m => exact (PublishStateNotify.coded.ends m hm hlen).map
  | publishDone m => exact (PublishDone.coded.ends m hm hlen).map
  | requestUpdate m => exact (RequestUpdate.coded.ends m hm hlen).map
  | requestOK m => exact (RequestOK.coded.ends m hm hlen).map
  | requestError m => exact (RequestError.coded.ends m hm hlen).map
  | fetchOK m => exact (FetchOK.coded.ends m hm hlen).map
  | publishNamespace m | subscribeNamespace m | subscribeTracks m =>
    exact (NamespaceRequest.coded.ends m hm hlen).map
  | namespaceEntry m | namespaceDone m => exact (NamespaceEntry.coded.ends m hm hlen).map
  | publishSkipped m => exact (PublishSkipped.coded.ends m hm hlen).map

/-- What is read of a payload. -/
structure Read (m : ControlMessage) (n : Nat) : Prop where
  within : m.Within
  normal : m.normal = m
  length : n = m.append.length

end ControlMessage

theorem MessageType.yields_parse (ty : MessageType) : Lib.Yields ty.parse ControlMessage.Read := by
  cases ty with
  | setup => exact Setup.coded.yields_map fun _ h hn => ⟨h, congrArg _ hn, rfl⟩
  | goaway => exact Goaway.coded.yields_map fun _ h hn => ⟨h, congrArg _ hn, rfl⟩
  | subscribe | fetch | trackStatus =>
    exact TrackRequest.coded.yields_map fun _ h hn => ⟨h, congrArg _ hn, rfl⟩
  | subscribeOK => exact SubscribeOK.coded.yields_map fun _ h hn => ⟨h, congrArg _ hn, rfl⟩
  | publish => exact Publish.coded.yields_map fun _ h hn => ⟨h, congrArg _ hn, rfl⟩
  | publishStateNotify =>
    exact PublishStateNotify.coded.yields_map fun _ h hn => ⟨h, congrArg _ hn, rfl⟩
  | publishDone => exact PublishDone.coded.yields_map fun _ h hn => ⟨h, congrArg _ hn, rfl⟩
  | requestUpdate => exact RequestUpdate.coded.yields_map fun _ h hn => ⟨h, congrArg _ hn, rfl⟩
  | requestOK => exact RequestOK.coded.yields_map fun _ h hn => ⟨h, congrArg _ hn, rfl⟩
  | requestError => exact RequestError.coded.yields_map fun _ h hn => ⟨h, congrArg _ hn, rfl⟩
  | fetchOK => exact FetchOK.coded.yields_map fun _ h hn => ⟨h, congrArg _ hn, rfl⟩
  | publishNamespace | subscribeNamespace | subscribeTracks =>
    exact NamespaceRequest.coded.yields_map fun _ h hn => ⟨h, congrArg _ hn, rfl⟩
  | namespaceEntry | namespaceDone =>
    exact NamespaceEntry.coded.yields_map fun _ h hn => ⟨h, congrArg _ hn, rfl⟩
  | publishSkipped => exact PublishSkipped.coded.yields_map fun _ h hn => ⟨h, congrArg _ hn, rfl⟩

theorem validate_normal (m : ControlMessage) : m.normal.validate = m.validate := by
  cases m <;> rfl

variable {m : ControlMessage}

theorem parsePayload_append (h : m.Encodable) :
    parsePayload m.type.code m.append = .ok m.normal := by
  have hlen : m.append.length < 2 ^ 64 := lt_of_le_of_lt h.payload (by decide)
  have hends : m.type.parse m.append = .ok (m.normal, []) :=
    ControlMessage.ends_parse h.within hlen
  simp only [parsePayload, newMessage_code, hends, validate_normal, h.valid, ne_eq,
    not_true_eq_false, if_false]

theorem reads_parse (h : m.Encodable) :
    ∃ frame, marshal m = .ok frame ∧ Lib.Reads parse frame m.normal := by
  obtain ⟨frame, hframe, hread⟩ := reads_readFrame m.type.code h.payload
  refine ⟨frame, hframe, ?_⟩
  rw [← append_nil frame]
  refine (hread.mapError ParseError.frame).bind ?_
  simp only [parsePayload_append h]
  exact Lib.reads_pure _

theorem read_of_parsePayload {t : UInt64} {payload : List UInt8}
    (h : parsePayload t payload = .ok m) :
    m.Within ∧ m.normal = m ∧ m.validate = .ok () ∧ m.append.length ≤ payload.length := by
  simp only [parsePayload] at h
  split at h
  · cases h
  · next ty _ =>
    split at h
    · cases h
    · next m' rest hparse =>
      split_ifs at h with hrest
      split at h
      · cases h
      · next hvalid =>
        cases h
        obtain ⟨n, hread, hn⟩ := ty.yields_parse _ _ _ hparse
        have hlen := hread.length
        exact ⟨hread.within, hread.normal, hvalid, by omega⟩

theorem encodable_of_parse {stream rest : List UInt8} (h : parse stream = .ok (m, rest)) :
    m.Encodable ∧ m.normal = m := by
  obtain ⟨⟨t, payload⟩, rest', hframe, hpayload⟩ := Lib.Parser.bind_ok h
  have hfits : payload.length ≤ maxControlMessagePayload := by
    rw [Lib.Parser.mapError] at hframe
    cases hread : readFrame stream with
    | error e =>
      rw [hread] at hframe
      cases hframe
    | ok r =>
      rw [hread] at hframe
      cases hframe
      exact length_of_readFrame hread
  dsimp only at hpayload
  cases hm : parsePayload t payload with
  | error e =>
    rw [hm] at hpayload
    cases hpayload
  | ok m' =>
    rw [hm] at hpayload
    cases hpayload
    obtain ⟨hwithin, hnormal, hvalid, hlen⟩ := read_of_parsePayload hm
    exact ⟨⟨hwithin, hvalid, hlen.trans hfits⟩, hnormal⟩

/-! ## Sorted, and otherwise the same -/

theorem kvPairsValue_eq (pairs : List KVPair) :
    kvPairsValue pairs = sortKVPairs (pairs.map KVPair.value) := by
  refine map_insertionSort _ _ _ _ fun a _ b _ => ?_
  rw [KVPair.type_value, KVPair.type_value]

theorem paramsValue_eq (ps : List WireParameter) :
    paramsValue ps = sortParams (ps.map WireParameter.value) := by
  refine map_insertionSort _ _ _ _ fun a _ b _ => ?_
  rw [type_value, type_value]

theorem ControlMessage.Plain.normal_eq (h : m.Plain) : m.normal = m.sorted := by
  have hsorted : m.normal =
      (m.mapLists (List.map KVPair.value) (List.map WireParameter.value)).sorted := by
    cases m <;> simp only [normal, sorted, mapLists, kvPairsValue_eq, paramsValue_eq]
  rw [hsorted, h]

theorem ControlMessage.plain_of_normal (h : m.normal = m) : m.Plain := by
  have hpairs (pairs : List KVPair) :
      (kvPairsValue pairs).map KVPair.value = kvPairsValue pairs := by
    rw [kvPairsValue, map_map]
    exact map_congr_left fun p _ => p.value_value
  have hparams (ps : List WireParameter) :
      (paramsValue ps).map WireParameter.value = paramsValue ps := by
    rw [paramsValue, map_map]
    exact map_congr_left fun p _ => value_value p
  have hplain : m.normal.Plain := by
    cases m <;> simp only [Plain, normal, mapLists, hpairs, hparams]
  rwa [h] at hplain

/-! ## Streams of messages -/

/-- The messages of a stream, by induction along it: `Parse` leaves it where the next begins. -/
theorem reads_parseTimes :
    ∀ {ms : List ControlMessage}, (∀ m ∈ ms, m.Encodable) →
      ∃ stream, marshalAll ms = .ok stream ∧
        parseTimes ms.length stream = .ok (ms.map ControlMessage.normal, []) ∧
        parseTimes (ms.length + 1) stream = .error (.frame .eof) := by
  intro ms
  induction ms with
  | nil =>
    intro _
    exact ⟨[], rfl, rfl, rfl⟩
  | cons m ms ih =>
    intro h
    obtain ⟨frame, hframe, hread⟩ := reads_parse (h m mem_cons_self)
    obtain ⟨stream, hstream, hmessages, heof⟩ := ih fun m hm => h m (mem_cons_of_mem _ hm)
    refine ⟨frame ++ stream, ?_, ?_, ?_⟩
    · rw [marshalAll, hframe, hstream]
      rfl
    · have hrest : Lib.Ends (parseTimes ms.length) stream (ms.map ControlMessage.normal) :=
        hmessages
      exact hread.bind_ends hrest.map
    · exact hread.bind_error (Lib.Parser.bind_fails heof)

/-- **Control messages make the round trip.** Messages that keep the limits, marshalled into one
    stream, are parsed one after the other as they were, but for their Parameters and Setup
    Options, which come back sorted; then the stream is at its end. Every message that is parsed
    keeps the limits, so that it is parsed again from what it is marshalled to. -/
theorem control_messages_round_trip (ms : List ControlMessage) (h : ∀ m ∈ ms, m.Encodable) :
    (∃ stream, marshalAll ms = .ok stream ∧
      parseTimes ms.length stream = .ok (ms.map ControlMessage.normal, []) ∧
      parseTimes (ms.length + 1) stream = .error (.frame .eof)) ∧
    (∀ m ∈ ms, m.Plain → m.normal = m.sorted) ∧
    ∀ (stream rest : List UInt8) (m : ControlMessage), parse stream = .ok (m, rest) →
      m.Encodable ∧ m.Plain ∧ ∃ frame, marshal m = .ok frame ∧ parse frame = .ok (m, []) := by
  refine ⟨reads_parseTimes h, fun m _ hm => hm.normal_eq, ?_⟩
  intro stream rest m hparse
  obtain ⟨hm, hnormal⟩ := encodable_of_parse hparse
  obtain ⟨frame, hframe, hread⟩ := reads_parse hm
  rw [hnormal] at hread
  exact ⟨hm, ControlMessage.plain_of_normal hnormal, frame, hframe, hread.ends⟩

/-- A SUBSCRIBE whose Location Filter stands before its priority, and a GOAWAY. -/
theorem control_messages_round_trip_sorts :
    ∃ stream : List UInt8,
      marshalAll [.subscribe ⟨1, [[0x61]], [0x62],
          [{ type := 0x21, bytes := [0x02, 0x05, 0x00], kind := .locationFilter },
            { type := 0x20, byte := 7, kind := .byte }]⟩, .goaway ⟨[], 3⟩] = .ok stream ∧
        parseTimes 2 stream =
          .ok ([.subscribe ⟨1, [[0x61]], [0x62],
            [{ type := 0x20, byte := 7, kind := .byte },
              { type := 0x21, bytes := [0x02, 0x05, 0x00], kind := .locationFilter }]⟩,
            .goaway ⟨[], 3⟩], []) ∧
        parseTimes 3 stream = .error (.frame .eof) := by
  have hsubscribe : ControlMessage.Encodable (.subscribe ⟨1, [[0x61]], [0x62],
      [{ type := 0x21, bytes := [0x02, 0x05, 0x00], kind := .locationFilter },
        { type := 0x20, byte := 7, kind := .byte }]⟩) := by
    refine ⟨⟨⟨by decide, by decide, by decide⟩, ?_⟩, by decide, by decide +kernel⟩
    intro p hp
    simp only [mem_cons, not_mem_nil, or_false] at hp
    rcases hp with rfl | rfl
    · exact ⟨rfl, fun _ => ⟨⟨.absoluteStart, 5, 0, 0, 0⟩, by decide +kernel⟩⟩
    · exact ⟨rfl, nofun⟩
  have hgoaway : ControlMessage.Encodable (.goaway ⟨[], 3⟩) :=
    ⟨Nat.zero_le _, rfl, by decide +kernel⟩
  exact (control_messages_round_trip _ (by
    intro m hm
    simp only [mem_cons, not_mem_nil, or_false] at hm
    rcases hm with rfl | rfl
    · exact hsubscribe
    · exact hgoaway)).1

end Control
end MoqGo.Message
