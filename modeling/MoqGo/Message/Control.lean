import MoqGo.Message.ParamCodec
import MoqGo.Wire.Frame

/-!
# Control messages (`pkg/moqt/message/types.go` and the files of the messages)

The payloads of the nineteen messages that `newMessage` knows: what each `Append` writes, what
each `Parse` reads, and what each `Validate` refuses. Messages of one layout are defined by it.

For every layout there is one lemma, `coded`: **what is written is read back**, with Parameters and
Setup Options sorted, and **what is read keeps the limits**. Four of the layouts end with Track
Properties that only the frame delimits, and a `REQUEST_ERROR` with a part that may be missing, so
reading back is stated for a payload that ends where the message does.
-/

namespace MoqGo.Message
namespace Control

open Wire

/-- What the `Parse` of a message reports. -/
inductive MessageError
  | wire (err : WireError)
  | field (err : FieldError)
  | params (err : ParamError)
  | goawayURI (size : Nat)
deriving DecidableEq, Repr

/-- What the `Validate` of a message reports. -/
inductive ValidateError
  | fullTrackName (total : Nat)
  | redirectAbsent
  | redirectPresent (errorCode : UInt64)
deriving DecidableEq, Repr

abbrev PayloadParser := Lib.Parser UInt8 MessageError

abbrev CodedAs {α : Type} := @Lib.Coded UInt8 MessageError α (2 ^ 64)

def Registered (ps : List WireParameter) : Prop := ∀ p ∈ ps, p.Registered

namespace Scanner

/-- `Scanner.Varint`. -/
def varint : PayloadParser UInt64 := parseVarint.mapError .wire

/-- `Scanner.UInt8`. -/
def uint8 : PayloadParser UInt8 := Reader.uint8.mapError .wire

/-- `Scanner.VarintBytes`. -/
def varintBytes : PayloadParser (List UInt8) := Reader.varintBytes.mapError .wire

/-- `Scanner.TrackNamespace`. -/
def trackNamespace : PayloadParser TrackNamespace := Reader.trackNamespace.mapError .field

/-- `Scanner.ReasonPhrase`. -/
def reasonPhrase : PayloadParser (List UInt8) := Reader.reasonPhrase.mapError .field

/-- `Scanner.KVPairsRemaining`. -/
def kvPairsRemaining : PayloadParser (List KVPair) := Reader.kvPairsRemaining.mapError .wire

/-- `Parameters.parse`, on the same reader. -/
def parameters : PayloadParser (List WireParameter) := parseParams.mapError .params

end Scanner

abbrev Field {α : Type} := @Lib.Delimited UInt8 MessageError α (2 ^ 64)

theorem field_varint : Field appendVarint Scanner.varint (fun _ => True) id where
  reads v _ _ := (reads_parseVarint v).mapError _
  yields := (yields_parseVarint.mapError _).mono fun _ _ h => ⟨⟨trivial, rfl⟩, h⟩

theorem field_varintBytes : Field appendVarintBytes Scanner.varintBytes (fun _ => True) id where
  reads p _ hlen :=
    (Reader.reads_varintBytes (lt_of_le_of_lt (length_le_appendVarintBytes p) hlen)).mapError _
  yields := (Reader.yields_varintBytes.mapError _).mono fun _ _ h => ⟨⟨trivial, rfl⟩, h.2⟩

theorem field_trackNamespace :
    Field appendTrackNamespace Scanner.trackNamespace TrackNamespace.Within id where
  reads _ h _ := (Reader.reads_trackNamespace h).mapError _
  yields := (Reader.yields_trackNamespace.mapError _).mono fun _ _ h => ⟨⟨h.1, rfl⟩, h.2⟩

theorem field_reasonPhrase :
    Field appendReasonPhrase Scanner.reasonPhrase (·.length ≤ maxReasonPhraseBytes) id where
  reads _ h _ := (Reader.reads_reasonPhrase h).mapError _
  yields := (Reader.yields_reasonPhrase.mapError _).mono fun _ _ h => ⟨⟨h.1, rfl⟩, h.2⟩

theorem field_parameters : Field appendParams Scanner.parameters Registered paramsValue where
  reads _ h hlen := (reads_parseParams h hlen).mapError _
  yields := yields_parseParams.mapError _

theorem coded_remainingBytes :
    CodedAs id (Reader.remainingBytes : PayloadParser (List UInt8)) (fun _ => True) id where
  ends p _ _ := Reader.ends_remainingBytes p
  yields := Reader.yields_remainingBytes.mono fun _ _ h => ⟨⟨trivial, rfl⟩, h⟩

/-! ## Setup and Goaway -/

/-- `Setup`. -/
structure Setup where
  options : List KVPair
deriving DecidableEq, Repr

namespace Setup

/-- `Setup.Append`. -/
def append (m : Setup) : List UInt8 := appendKVPairs m.options

/-- `Setup.Parse`. -/
def parse : PayloadParser Setup := do
  let options ← Scanner.kvPairsRemaining
  return { options }

/-- Byte values of at most `MaxKVPairValueBytes`. -/
def Within (m : Setup) : Prop := ∀ p ∈ m.options, p.Within

theorem coded : CodedAs append parse Within fun m => { options := kvPairsValue m.options } where
  ends m hm _ := ((Reader.ends_kvPairsRemaining hm).mapError _).map
  yields := by
    refine (Reader.yields_kvPairsRemaining.mapError _).bind fun options n h => Lib.yields_pure ?_
    obtain ⟨⟨hwithin, hvalue⟩, rfl⟩ := h
    exact ⟨⟨hwithin, congrArg Setup.mk hvalue⟩, rfl⟩

end Setup

/-- `MaxGoawayURIBytes`. -/
def maxGoawayURIBytes : Nat := 8192

/-- `Goaway`. -/
structure Goaway where
  newSessionURI : List UInt8
  timeout : UInt64
deriving DecidableEq, Repr

namespace Goaway

/-- `Goaway.Append`. -/
def append (m : Goaway) : List UInt8 := appendVarintBytes m.newSessionURI ++ appendVarint m.timeout

/-- `Goaway.Parse`. -/
def parse : PayloadParser Goaway := do
  let newSessionURI ← Scanner.varintBytes
  if maxGoawayURIBytes < newSessionURI.length then throw (.goawayURI newSessionURI.length)
  else do
    let timeout ← Scanner.varint
    return { newSessionURI, timeout }

/-- A URI of at most `MaxGoawayURIBytes`. -/
def Within (m : Goaway) : Prop := m.newSessionURI.length ≤ maxGoawayURIBytes

theorem coded : CodedAs append parse Within id where
  ends m hm _ := by
    have hlen : m.newSessionURI.length < 2 ^ 64 := lt_of_le_of_lt hm (by decide)
    refine ((Reader.reads_varintBytes hlen).mapError _).bind_ends ?_
    rw [if_neg (Nat.not_lt.mpr hm)]
    exact ((reads_parseVarint _).mapError _).map.ends
  yields := by
    refine (Reader.yields_varintBytes.mapError _).bind fun uri n huri => ?_
    obtain ⟨-, rfl⟩ := huri
    split_ifs with hlong
    · exact Lib.yields_throw
    · refine (yields_parseVarint.mapError _).bind fun timeout m hm => Lib.yields_pure ?_
      refine ⟨⟨Nat.not_lt.mp hlong, rfl⟩, ?_⟩
      rw [append, List.length_append, hm, Nat.add_zero]

end Goaway

/-! ## Requests for a track -/

/-- `validateFullTrackName`. -/
def validateFullTrackName (ns : TrackNamespace) (name : List UInt8) : Except ValidateError Unit :=
  let total := ns.byteLen + name.length
  if maxFullTrackNameBytes < total then .error (.fullTrackName total) else .ok ()

/-- The layout of `Subscribe`, `Fetch` and `TrackStatus`. -/
structure TrackRequest where
  requestID : UInt64
  ns : TrackNamespace
  name : List UInt8
  parameters : List WireParameter
deriving DecidableEq, Repr

namespace TrackRequest

def append (m : TrackRequest) : List UInt8 :=
  appendVarint m.requestID ++ (appendTrackNamespace m.ns ++ (appendVarintBytes m.name ++
    appendParams m.parameters))

def parse : PayloadParser TrackRequest := do
  let requestID ← Scanner.varint
  let ns ← Scanner.trackNamespace
  let name ← Scanner.varintBytes
  let parameters ← Scanner.parameters
  return { requestID, ns, name, parameters }

def validate (m : TrackRequest) : Except ValidateError Unit := validateFullTrackName m.ns m.name

def Within (m : TrackRequest) : Prop := m.ns.Within ∧ Registered m.parameters

theorem coded :
    CodedAs append parse Within fun m => { m with parameters := paramsValue m.parameters } :=
  (field_varint.before (field_trackNamespace.before (field_varintBytes.before
    field_parameters.coded))).record (fun m => (m.requestID, m.ns, m.name, m.parameters))
    (fun p => ⟨p.1, p.2.1, p.2.2.1, p.2.2.2⟩) (by simp only [parse, bind_assoc, pure_bind])
    (by simp [Within])

end TrackRequest

/-- `Subscribe`. -/
abbrev Subscribe := TrackRequest
abbrev Subscribe.append : Subscribe → List UInt8 := TrackRequest.append
abbrev Subscribe.parse : PayloadParser Subscribe := TrackRequest.parse
abbrev Subscribe.validate : Subscribe → Except ValidateError Unit := TrackRequest.validate

/-- `Fetch`. -/
abbrev Fetch := TrackRequest
abbrev Fetch.append : Fetch → List UInt8 := TrackRequest.append
abbrev Fetch.parse : PayloadParser Fetch := TrackRequest.parse
abbrev Fetch.validate : Fetch → Except ValidateError Unit := TrackRequest.validate

/-- `TrackStatus`. -/
abbrev TrackStatus := TrackRequest
abbrev TrackStatus.append : TrackStatus → List UInt8 := TrackRequest.append
abbrev TrackStatus.parse : PayloadParser TrackStatus := TrackRequest.parse
abbrev TrackStatus.validate : TrackStatus → Except ValidateError Unit := TrackRequest.validate

/-- `Publish`. -/
structure Publish where
  requestID : UInt64
  ns : TrackNamespace
  name : List UInt8
  trackAlias : UInt64
  parameters : List WireParameter
  trackProperties : List UInt8
deriving DecidableEq, Repr

namespace Publish

/-- `Publish.Append`. -/
def append (m : Publish) : List UInt8 :=
  appendVarint m.requestID ++ (appendTrackNamespace m.ns ++ (appendVarintBytes m.name ++
    (appendVarint m.trackAlias ++ (appendParams m.parameters ++ m.trackProperties))))

/-- `Publish.Parse`. -/
def parse : PayloadParser Publish := do
  let requestID ← Scanner.varint
  let ns ← Scanner.trackNamespace
  let name ← Scanner.varintBytes
  let trackAlias ← Scanner.varint
  let parameters ← Scanner.parameters
  let trackProperties ← Reader.remainingBytes
  return { requestID, ns, name, trackAlias, parameters, trackProperties }

/-- `Publish.Validate`. -/
def validate (m : Publish) : Except ValidateError Unit := validateFullTrackName m.ns m.name

def Within (m : Publish) : Prop := m.ns.Within ∧ Registered m.parameters

theorem coded :
    CodedAs append parse Within fun m => { m with parameters := paramsValue m.parameters } :=
  (field_varint.before (field_trackNamespace.before (field_varintBytes.before
    (field_varint.before (field_parameters.before coded_remainingBytes))))).record
    (fun m => (m.requestID, m.ns, m.name, m.trackAlias, m.parameters, m.trackProperties))
    (fun p => ⟨p.1, p.2.1, p.2.2.1, p.2.2.2.1, p.2.2.2.2.1, p.2.2.2.2.2⟩)
    (by simp only [parse, bind_assoc, pure_bind]) (by simp [Within])

end Publish

/-! ## Answers -/

/-- `SubscribeOK`. -/
structure SubscribeOK where
  trackAlias : UInt64
  parameters : List WireParameter
  trackProperties : List UInt8
deriving DecidableEq, Repr

namespace SubscribeOK

/-- `SubscribeOK.Append`. -/
def append (m : SubscribeOK) : List UInt8 :=
  appendVarint m.trackAlias ++ (appendParams m.parameters ++ m.trackProperties)

/-- `SubscribeOK.Parse`. -/
def parse : PayloadParser SubscribeOK := do
  let trackAlias ← Scanner.varint
  let parameters ← Scanner.parameters
  let trackProperties ← Reader.remainingBytes
  return { trackAlias, parameters, trackProperties }

theorem coded :
    CodedAs append parse (fun m => Registered m.parameters)
      fun m => { m with parameters := paramsValue m.parameters } :=
  (field_varint.before (field_parameters.before coded_remainingBytes)).record
    (fun m => (m.trackAlias, m.parameters, m.trackProperties)) (fun p => ⟨p.1, p.2.1, p.2.2⟩)
    (by simp only [parse, bind_assoc, pure_bind]) (by simp)

end SubscribeOK

/-- `RequestOK`. -/
structure RequestOK where
  parameters : List WireParameter
  trackProperties : List UInt8
deriving DecidableEq, Repr

namespace RequestOK

/-- `RequestOK.Append`. -/
def append (m : RequestOK) : List UInt8 := appendParams m.parameters ++ m.trackProperties

/-- `RequestOK.Parse`. -/
def parse : PayloadParser RequestOK := do
  let parameters ← Scanner.parameters
  let trackProperties ← Reader.remainingBytes
  return { parameters, trackProperties }

theorem coded :
    CodedAs append parse (fun m => Registered m.parameters)
      fun m => { m with parameters := paramsValue m.parameters } :=
  (field_parameters.before coded_remainingBytes).record
    (fun m => (m.parameters, m.trackProperties)) (fun p => ⟨p.1, p.2⟩)
    (by simp only [parse, bind_assoc, pure_bind]) (by simp)

end RequestOK

/-- `FetchOK`. -/
structure FetchOK where
  endOfTrack : Bool
  endLocation : Location
  parameters : List WireParameter
  trackProperties : List UInt8
deriving DecidableEq, Repr

namespace FetchOK

/-- `FetchOK.Append`. -/
def append (m : FetchOK) : List UInt8 :=
  [if m.endOfTrack then 1 else 0] ++ (appendVarint m.endLocation.group ++
    (appendVarint m.endLocation.object ++ (appendParams m.parameters ++ m.trackProperties)))

/-- `FetchOK.Parse`. -/
def parse : PayloadParser FetchOK := do
  let eot ← Scanner.uint8
  let group ← Scanner.varint
  let object ← Scanner.varint
  let parameters ← Scanner.parameters
  let trackProperties ← Reader.remainingBytes
  return { endOfTrack := eot == 1, endLocation := ⟨group, object⟩, parameters, trackProperties }

theorem coded :
    CodedAs append parse (fun m => Registered m.parameters)
      fun m => { m with parameters := paramsValue m.parameters } where
  ends m hm hlen := by
    have heot : ((if m.endOfTrack then 1 else 0 : UInt8) == 1) = m.endOfTrack := by
      cases m.endOfTrack <;> rfl
    simp only [append, List.length_append] at hlen
    refine ((Reader.reads_uint8 _).mapError _).bind_ends ?_
    refine ((reads_parseVarint _).mapError _).bind_ends ?_
    refine ((reads_parseVarint _).mapError _).bind_ends ?_
    refine ((reads_parseParams hm (by omega)).mapError _).bind_ends ?_
    rw [heot]
    exact (Reader.ends_remainingBytes _).map
  yields := by
    refine (Reader.yields_uint8.mapError _).bind fun eot _ heot => ?_
    refine (yields_parseVarint.mapError _).bind fun group _ hgroup => ?_
    refine (yields_parseVarint.mapError _).bind fun object _ hobject => ?_
    refine (yields_parseParams.mapError _).bind fun ps _ hps => ?_
    refine Reader.yields_remainingBytes.bind fun props _ hprops => Lib.yields_pure ?_
    refine ⟨⟨hps.1.1, by simp only [hps.1.2]⟩, ?_⟩
    simp only [append, List.length_append, List.length_singleton, heot, hgroup, hobject, hps.2,
      hprops, Nat.add_zero]

end FetchOK

/-- `Redirect`. -/
structure Redirect where
  connectURI : List UInt8
  ns : TrackNamespace
  trackName : List UInt8
deriving DecidableEq, Repr

namespace Redirect

/-- What `RequestError.Append` writes of a Redirect. -/
def append (rd : Redirect) : List UInt8 :=
  appendVarintBytes rd.connectURI ++ (appendTrackNamespace rd.ns ++ appendVarintBytes rd.trackName)

/-- What `RequestError.Parse` reads of a Redirect. -/
def parse : PayloadParser Redirect := do
  let connectURI ← Scanner.varintBytes
  let ns ← Scanner.trackNamespace
  let trackName ← Scanner.varintBytes
  return { connectURI, ns, trackName }

theorem coded : CodedAs append parse (fun rd => rd.ns.Within) id :=
  (field_varintBytes.before (field_trackNamespace.before field_varintBytes.coded)).record
    (fun rd => (rd.connectURI, rd.ns, rd.trackName)) (fun p => ⟨p.1, p.2.1, p.2.2⟩)
    (by simp only [parse, bind_assoc, pure_bind]) (by simp)

theorem append_ne_nil (rd : Redirect) : rd.append ≠ [] := by
  have hpos := varintLen_pos (UInt64.ofNat rd.connectURI.length)
  intro h
  have hlen := congrArg List.length h
  rw [append, appendVarintBytes, List.length_append, List.length_append, length_appendVarint,
    List.length_nil] at hlen
  omega

end Redirect

/-- `moqt.RequestRedirect`. -/
def requestRedirect : UInt64 := 0x34

/-- `RequestError`. -/
structure RequestError where
  errorCode : UInt64
  retryInterval : UInt64
  errorReason : List UInt8
  redirect : Option Redirect
deriving DecidableEq, Repr

namespace RequestError

/-- `RequestError.Append`. -/
def append (m : RequestError) : List UInt8 :=
  appendVarint m.errorCode ++ (appendVarint m.retryInterval ++ (appendReasonPhrase m.errorReason ++
    match m.redirect with
    | none => []
    | some rd => rd.append))

/-- `RequestError.Parse`. -/
def parse : PayloadParser RequestError := do
  let errorCode ← Scanner.varint
  let retryInterval ← Scanner.varint
  let errorReason ← Scanner.reasonPhrase
  let redirect ← Redirect.parse.rest
  return { errorCode, retryInterval, errorReason, redirect }

/-- `RequestError.ValidateRedirect`. -/
def validate (m : RequestError) : Except ValidateError Unit :=
  if m.errorCode = requestRedirect ∧ m.redirect = none then .error .redirectAbsent
  else if m.errorCode ≠ requestRedirect ∧ m.redirect ≠ none then
    .error (.redirectPresent m.errorCode)
  else .ok ()

def Within (m : RequestError) : Prop :=
  m.errorReason.length ≤ maxReasonPhraseBytes ∧ ∀ rd, m.redirect = some rd → rd.ns.Within

theorem coded : CodedAs append parse Within id :=
  (field_varint.before (field_varint.before
    (field_reasonPhrase.before (Redirect.coded.rest Redirect.append_ne_nil)))).record
    (fun m => (m.errorCode, m.retryInterval, m.errorReason, m.redirect))
    (fun p => ⟨p.1, p.2.1, p.2.2.1, p.2.2.2⟩)
    (by simp only [parse, bind_assoc, pure_bind]) (by simp [Within])
    (fun ⟨_, _, _, redirect⟩ => by cases redirect <;> rfl) (by simp)

end RequestError

/-! ## On the stream of a request -/

/-- `PublishStateNotify`. -/
structure PublishStateNotify where
  parameters : List WireParameter
deriving DecidableEq, Repr

namespace PublishStateNotify

/-- `PublishStateNotify.Append`. -/
def append (m : PublishStateNotify) : List UInt8 := appendParams m.parameters

/-- `PublishStateNotify.Parse`. -/
def parse : PayloadParser PublishStateNotify := do
  let parameters ← Scanner.parameters
  return { parameters }

theorem coded :
    CodedAs append parse (fun m => Registered m.parameters)
      fun m => { m with parameters := paramsValue m.parameters } :=
  field_parameters.coded.record (fun m => m.parameters) (fun ps => ⟨ps⟩) rfl fun _ => Iff.rfl

end PublishStateNotify

/-- `PublishDone`. -/
structure PublishDone where
  statusCode : UInt64
  streamCount : UInt64
  errorReason : List UInt8
deriving DecidableEq, Repr

namespace PublishDone

/-- `PublishDone.Append`. -/
def append (m : PublishDone) : List UInt8 :=
  appendVarint m.statusCode ++ (appendVarint m.streamCount ++ appendReasonPhrase m.errorReason)

/-- `PublishDone.Parse`. -/
def parse : PayloadParser PublishDone := do
  let statusCode ← Scanner.varint
  let streamCount ← Scanner.varint
  let errorReason ← Scanner.reasonPhrase
  return { statusCode, streamCount, errorReason }

theorem coded : CodedAs append parse (fun m => m.errorReason.length ≤ maxReasonPhraseBytes) id :=
  (field_varint.before (field_varint.before field_reasonPhrase.coded)).record
    (fun m => (m.statusCode, m.streamCount, m.errorReason)) (fun p => ⟨p.1, p.2.1, p.2.2⟩)
    (by simp only [parse, bind_assoc, pure_bind]) (by simp)

end PublishDone

/-- `RequestUpdate`. -/
structure RequestUpdate where
  requestID : UInt64
  parameters : List WireParameter
deriving DecidableEq, Repr

namespace RequestUpdate

/-- `RequestUpdate.Append`. -/
def append (m : RequestUpdate) : List UInt8 := appendVarint m.requestID ++ appendParams m.parameters

/-- `RequestUpdate.Parse`. -/
def parse : PayloadParser RequestUpdate := do
  let requestID ← Scanner.varint
  let parameters ← Scanner.parameters
  return { requestID, parameters }

theorem coded :
    CodedAs append parse (fun m => Registered m.parameters)
      fun m => { m with parameters := paramsValue m.parameters } :=
  (field_varint.before field_parameters.coded).record
    (fun m => (m.requestID, m.parameters)) (fun p => ⟨p.1, p.2⟩)
    (by simp only [parse, bind_assoc, pure_bind]) (by simp)

end RequestUpdate

/-! ## Namespaces -/

/-- The layout of `PublishNamespace`, `SubscribeNamespace` and `SubscribeTracks`. -/
structure NamespaceRequest where
  requestID : UInt64
  ns : TrackNamespace
  parameters : List WireParameter
deriving DecidableEq, Repr

namespace NamespaceRequest

def append (m : NamespaceRequest) : List UInt8 :=
  appendVarint m.requestID ++ (appendTrackNamespace m.ns ++ appendParams m.parameters)

def parse : PayloadParser NamespaceRequest := do
  let requestID ← Scanner.varint
  let ns ← Scanner.trackNamespace
  let parameters ← Scanner.parameters
  return { requestID, ns, parameters }

def Within (m : NamespaceRequest) : Prop := m.ns.Within ∧ Registered m.parameters

theorem coded :
    CodedAs append parse Within fun m => { m with parameters := paramsValue m.parameters } :=
  (field_varint.before (field_trackNamespace.before field_parameters.coded)).record
    (fun m => (m.requestID, m.ns, m.parameters)) (fun p => ⟨p.1, p.2.1, p.2.2⟩)
    (by simp only [parse, bind_assoc, pure_bind]) (by simp [Within])

end NamespaceRequest

/-- `PublishNamespace`. -/
abbrev PublishNamespace := NamespaceRequest
abbrev PublishNamespace.append : PublishNamespace → List UInt8 := NamespaceRequest.append
abbrev PublishNamespace.parse : PayloadParser PublishNamespace := NamespaceRequest.parse

/-- `SubscribeNamespace`. -/
abbrev SubscribeNamespace := NamespaceRequest
abbrev SubscribeNamespace.append : SubscribeNamespace → List UInt8 := NamespaceRequest.append
abbrev SubscribeNamespace.parse : PayloadParser SubscribeNamespace := NamespaceRequest.parse

/-- `SubscribeTracks`. -/
abbrev SubscribeTracks := NamespaceRequest
abbrev SubscribeTracks.append : SubscribeTracks → List UInt8 := NamespaceRequest.append
abbrev SubscribeTracks.parse : PayloadParser SubscribeTracks := NamespaceRequest.parse

/-- The layout of `Namespace` and `NamespaceDone`. -/
structure NamespaceEntry where
  trackNamespaceSuffix : TrackNamespace
deriving DecidableEq, Repr

namespace NamespaceEntry

def append (m : NamespaceEntry) : List UInt8 := appendTrackNamespace m.trackNamespaceSuffix

def parse : PayloadParser NamespaceEntry := do
  let trackNamespaceSuffix ← Scanner.trackNamespace
  return { trackNamespaceSuffix }

theorem coded : CodedAs append parse (fun m => m.trackNamespaceSuffix.Within) id :=
  field_trackNamespace.coded.record (fun m => m.trackNamespaceSuffix) (fun ns => ⟨ns⟩)
    rfl fun _ => Iff.rfl

end NamespaceEntry

/-- `Namespace`. -/
abbrev Namespace := NamespaceEntry
abbrev Namespace.append : Namespace → List UInt8 := NamespaceEntry.append
abbrev Namespace.parse : PayloadParser Namespace := NamespaceEntry.parse

/-- `NamespaceDone`. -/
abbrev NamespaceDone := NamespaceEntry
abbrev NamespaceDone.append : NamespaceDone → List UInt8 := NamespaceEntry.append
abbrev NamespaceDone.parse : PayloadParser NamespaceDone := NamespaceEntry.parse

/-- `PublishSkipped`. -/
structure PublishSkipped where
  trackNamespaceSuffix : TrackNamespace
  trackName : List UInt8
deriving DecidableEq, Repr

namespace PublishSkipped

/-- `PublishSkipped.Append`. -/
def append (m : PublishSkipped) : List UInt8 :=
  appendTrackNamespace m.trackNamespaceSuffix ++ appendVarintBytes m.trackName

/-- `PublishSkipped.Parse`. -/
def parse : PayloadParser PublishSkipped := do
  let trackNamespaceSuffix ← Scanner.trackNamespace
  let trackName ← Scanner.varintBytes
  return { trackNamespaceSuffix, trackName }

theorem coded : CodedAs append parse (fun m => m.trackNamespaceSuffix.Within) id :=
  (field_trackNamespace.before field_varintBytes.coded).record
    (fun m => (m.trackNamespaceSuffix, m.trackName)) (fun p => ⟨p.1, p.2⟩)
    (by simp only [parse, bind_assoc, pure_bind]) (by simp)

end PublishSkipped

end Control
end MoqGo.Message
