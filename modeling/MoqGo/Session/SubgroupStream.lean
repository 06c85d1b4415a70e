import MoqGo.Message.SubgroupCodec
import MoqGo.Message.Timeout

/-!
# Writing and reading Subgroup streams (`pkg/moqt/session/datastream_out.go`, `datastream_in.go`)

`WriteObjectAt` takes absolute Object IDs and writes deltas; `ReadDecoded` adds them up again. Each
end keeps the Object ID before, and **nothing on the wire lets one correct the other**: the two
must move in step, which is the relation `Follows` between the states of the ends.

A call of the writer can fail for reasons outside the codec (the publication ended or is paused, a
delivery timeout, the transport); what decides is the call's `Surroundings`.
-/

namespace MoqGo.Session

open Lib Message List

/-! ## The writing end -/

/-- The codes a Subgroup stream is reset with. -/
inductive StreamResetCode
  | cancelled
  | deliveryTimeout
deriving DecidableEq, Repr, Inhabited

/-- What writing an Object reports. -/
inductive WriteError
  | publicationEnded
  | forwardPaused
  | deliveryTimeout
  | objectIDNotIncreasing (objectID prev : UInt64)
  | transport
deriving DecidableEq, Repr, Inhabited

/-- What the transport does with a `Write`: it takes all bytes, or it takes `written` of them and
    fails, perhaps for the deadline (`isWriteTimeout`). -/
inductive WriteOutcome
  | done
  | failed (written : Nat) (timeout : Bool)
deriving DecidableEq, Repr, Inhabited

/-- What a call finds around it: what the hooks `ended` and `paused` report (`false` where there
    are none), the time since the Object was received, and the transport. -/
structure Surroundings where
  ended : Bool := false
  paused : Bool := false
  elapsed : Duration := 0
  write : WriteOutcome := .done
deriving DecidableEq, Repr, Inhabited

/-- `OutgoingSubgroupStream`. `dst` is what the transport took, `objects` what `onObject` was
    told. -/
structure OutgoingSubgroupStream where
  header : WireSubgroupHeader
  dst : List UInt8
  pubTimeouts : DeliveryTimeouts := {}
  subTimeouts : DeliveryTimeouts := {}
  objectTimeout : Duration := 0
  subgroupTimeout : Duration := 0
  sawFirstObject : Bool := false
  encPrevObject : UInt64 := 0
  encHavePrev : Bool := false
  objects : List Location := []
  reset : Option StreamResetCode := none
deriving DecidableEq, Repr, Inhabited

/-- `Session.OpenSubgroup`: the header is written. -/
def openSubgroup (h : WireSubgroupHeader) : OutgoingSubgroupStream :=
  { header := h, dst := writeSubgroupHeader h }

/-- One call of `WriteObjectAt`. -/
structure Write where
  objectID : UInt64
  obj : SubgroupObject
  around : Surroundings := {}
deriving DecidableEq, Repr, Inhabited

namespace OutgoingSubgroupStream

/-- `WithDeliveryTimeouts`. -/
def withDeliveryTimeouts (s : OutgoingSubgroupStream) (publisher subscriber : DeliveryTimeouts) :
    OutgoingSubgroupStream :=
  let eff := publisher.effective subscriber
  { s with
    pubTimeouts := publisher
    subTimeouts := subscriber
    objectTimeout := eff.object
    subgroupTimeout := eff.subgroup }

/-- `Cancel`. -/
def cancel (s : OutgoingSubgroupStream) (code : StreamResetCode) : OutgoingSubgroupStream :=
  { s with reset := s.reset <|> some code }

/-- The first step of `WriteObjectReceivedAt`: the subgroup's first Object may override the
    publisher's timeouts. -/
def seeFirstObject (s : OutgoingSubgroupStream) (obj : SubgroupObject) : OutgoingSubgroupStream :=
  let eff := (s.pubTimeouts.applyObjectProperties obj.properties).effective s.subTimeouts
  let overrides := !s.sawFirstObject && s.header.properties && !s.header.replayingSubgroup
  { s with
    objectTimeout := if overrides then eff.object else s.objectTimeout
    subgroupTimeout := if overrides then eff.subgroup else s.subgroupTimeout
    sawFirstObject := true }

/-- `checkObjectTimeout` fails. -/
def timedOut (s : OutgoingSubgroupStream) (elapsed : Duration) : Bool :=
  decide (0 < s.objectTimeout) && decide (s.objectTimeout < elapsed)

def absoluteID (s : OutgoingSubgroupStream) (delta : UInt64) : UInt64 :=
  if s.encHavePrev then s.encPrevObject + delta + 1 else delta

/-- `WriteObjectReceivedAt` from the write on. -/
def send (s : OutgoingSubgroupStream) (outcome : WriteOutcome) (obj : SubgroupObject) :
    Except WriteError Unit × OutgoingSubgroupStream :=
  let objectID := s.absoluteID obj.objectIDDelta
  let bytes := obj.append s.header.properties
  let objects := s.objects ++ [Location.mk s.header.groupID objectID]
  match outcome with
  | .done =>
    (.ok (), { s with
      dst := s.dst ++ bytes
      objects := objects
      encPrevObject := objectID
      encHavePrev := true })
  | .failed written timeout =>
    let s' : OutgoingSubgroupStream := { s with
      dst := s.dst ++ bytes.take written
      objects := objects }
    if 0 < s.objectTimeout ∧ timeout then (.error .deliveryTimeout, s'.cancel .deliveryTimeout)
    else (.error .transport, s')

/-- `WriteObjectReceivedAt`, and so `WriteObject`. -/
def writeObject (s : OutgoingSubgroupStream) (around : Surroundings) (obj : SubgroupObject) :
    Except WriteError Unit × OutgoingSubgroupStream :=
  let s := s.seeFirstObject obj
  if around.ended then (.error .publicationEnded, s)
  else if around.paused then (.error .forwardPaused, s.cancel .cancelled)
  else if s.timedOut around.elapsed then (.error .deliveryTimeout, s.cancel .deliveryTimeout)
  else s.send around.write obj

/-- `WriteObjectAt`. -/
def writeObjectAt (s : OutgoingSubgroupStream) (w : Write) :
    Except WriteError Unit × OutgoingSubgroupStream :=
  if s.encHavePrev then
    if w.objectID ≤ s.encPrevObject then
      (.error (.objectIDNotIncreasing w.objectID s.encPrevObject), s)
    else
      s.writeObject w.around (w.obj.withDelta (w.objectID - s.encPrevObject - 1))
  else s.writeObject w.around (w.obj.withDelta w.objectID)

/-- Calls of `WriteObjectAt` one after the other: what each returns, and the stream at the end. -/
def writeAll (s : OutgoingSubgroupStream) :
    List Write → List (Except WriteError Unit) × OutgoingSubgroupStream
  | [] => ([], s)
  | w :: ws =>
    let r := s.writeObjectAt w
    let rs := r.2.writeAll ws
    (r.1 :: rs.1, rs.2)

/-- The Object ID before, if any. -/
def prev (s : OutgoingSubgroupStream) : Option UInt64 :=
  if s.encHavePrev then some s.encPrevObject else none

end OutgoingSubgroupStream

/-! ## The reading end -/

/-- What reading an Object reports. -/
inductive SubgroupStreamError
  | object (err : SubgroupObjectError)
  | invalidObject (err : SubgroupObjectInvalid)
  | objectID (err : IDError)
  | malformedTrack (group object : UInt64) (err : PropertiesError)
deriving DecidableEq, Repr

/-- The error that wraps `io.EOF`: the stream ended before the next Object's first byte. -/
def SubgroupStreamError.eof : SubgroupStreamError := .object (.objectIDDelta .eof)

/-- `DecodedSubgroupObject`. -/
structure DecodedSubgroupObject where
  groupID : UInt64
  subgroupID : UInt64
  objectID : UInt64
  objectStatus : UInt64
  properties : List UInt8
  payload : List UInt8
deriving DecidableEq, Repr, Inhabited

/-- `IncomingSubgroupStream`, the decoder's state. -/
structure IncomingSubgroupStream extends Message.IncomingSubgroupStream where
  header : WireSubgroupHeader
  decSubgroupID : UInt64 := 0
  decSubgroupResolved : Bool := false
  pendingPayload : UInt64 := 0
deriving DecidableEq, Repr, Inhabited

/-- `acceptDataStream`, of a Subgroup stream. -/
def acceptSubgroup : Parser UInt8 SubgroupHeaderError IncomingSubgroupStream := do
  let h ← readDataStreamHeader
  return { header := h }

/-- The Subgroup ID of a stream whose first Object is `first` (§11.3.1). -/
def subgroupIDFrom (h : WireSubgroupHeader) (first : UInt64) : UInt64 :=
  match h.subgroupIDMode with
  | .implicitZero => 0
  | .implicitFirstObject => first
  | .explicit => h.subgroupID

namespace IncomingSubgroupStream

/-- The Subgroup ID is resolved once per stream. -/
def resolveSubgroupID (s : IncomingSubgroupStream) : IncomingSubgroupStream :=
  if s.decSubgroupResolved then s
  else
    { s with
      decSubgroupID := subgroupIDFrom s.header s.decPrevObject
      decSubgroupResolved := true }

/-- The error of an Object whose Properties make the track malformed. -/
def checkProperties (s : IncomingSubgroupStream) (obj : SubgroupObject) :
    Option SubgroupStreamError :=
  if obj.properties.isEmpty then none
  else
    match checkObjectProperties obj.properties s.header.groupID s.decPrevObject with
    | .ok () => none
    | .error err => some (.malformedTrack s.header.groupID s.decPrevObject err)

/-- `ReadObjectHeader` after `ParseHeader`. An Object of a malformed track is returned with the
    error. -/
def checkHeader (s : IncomingSubgroupStream) (obj : SubgroupObject) (n : UInt64) :
    Except SubgroupStreamError
      ((SubgroupObject × Option SubgroupStreamError) × IncomingSubgroupStream) :=
  match if n = 0 then obj.validate else .ok () with
  | .error err => .error (.invalidObject err)
  | .ok () =>
    match s.toIncomingSubgroupStream.readObjectHeader obj.objectIDDelta with
    | .error err => .error (.objectID err)
    | .ok ids =>
      let s' := resolveSubgroupID { s with toIncomingSubgroupStream := ids, pendingPayload := n }
      .ok ((obj, s'.checkProperties obj), s')

/-- `ReadObjectHeader`. -/
def readObjectHeader (maxField : Nat) (s : IncomingSubgroupStream) :
    Parser UInt8 SubgroupStreamError
      ((SubgroupObject × Option SubgroupStreamError) × IncomingSubgroupStream) := do
  let hdr ← (SubgroupObject.parseHeader maxField s.header.properties).mapError
    SubgroupStreamError.object
  fun bs => (s.checkHeader hdr.1 hdr.2).map (·, bs)

/-- `ReadObjectPayload`. -/
def readObjectPayload (maxField : Nat) (s : IncomingSubgroupStream) (obj : SubgroupObject) :
    Parser UInt8 SubgroupStreamError (SubgroupObject × IncomingSubgroupStream) := do
  let obj ← (SubgroupObject.parsePayload maxField obj s.pendingPayload).mapError
    SubgroupStreamError.object
  return (obj, { s with pendingPayload := 0 })

/-- `ReadObject`: the payload of an Object of a malformed track is read, and the Object dropped. -/
def readObject (maxField : Nat) (s : IncomingSubgroupStream) :
    Parser UInt8 SubgroupStreamError (SubgroupObject × IncomingSubgroupStream) := do
  let hdr ← s.readObjectHeader maxField
  let r ← hdr.2.readObjectPayload maxField hdr.1.1
  match hdr.1.2 with
  | some malformed => throw malformed
  | none => return r

/-- `ReadDecoded`. -/
def readDecoded (maxField : Nat) (s : IncomingSubgroupStream) :
    Parser UInt8 SubgroupStreamError (DecodedSubgroupObject × IncomingSubgroupStream) := do
  let r ← s.readObject maxField
  return (
    { groupID := r.2.header.groupID
      subgroupID := r.2.decSubgroupID
      objectID := r.2.decPrevObject
      objectStatus := r.1.objectStatus
      properties := r.1.properties
      payload := r.1.payload }, r.2)

/-- `ReadDecoded` called `n` times. -/
def readDecodedTimes (maxField : Nat) : Nat → IncomingSubgroupStream →
    Parser UInt8 SubgroupStreamError (List DecodedSubgroupObject × IncomingSubgroupStream)
  | 0, s => pure ([], s)
  | n + 1, s => do
    let r ← s.readDecoded maxField
    let rs ← readDecodedTimes maxField n r.2
    return (r.1 :: rs.1, rs.2)

end IncomingSubgroupStream

/-! ## What a stream says -/

/-- The calls whose Object ID exceeds that of the one before, `prev` at first: those
    `WriteObjectAt` does not refuse. -/
def increasing : Option UInt64 → List Write → List Write
  | _, [] => []
  | prev, w :: ws =>
    if prev.all (· < w.objectID) then w :: increasing (some w.objectID) ws else increasing prev ws

/-- An Object as it is to be read, on a stream whose first Object is `first`. -/
def Write.decoded (h : WireSubgroupHeader) (first : UInt64) (w : Write) : DecodedSubgroupObject :=
  { groupID := h.groupID
    subgroupID := subgroupIDFrom h first
    objectID := w.objectID
    objectStatus := w.obj.wireStatus
    properties := w.obj.properties
    payload := w.obj.payload }

/-- An Object that may be written on a stream with header `h`. -/
structure Write.Writable (maxField : Nat) (h : WireSubgroupHeader) (w : Write) : Prop where
  payload : w.obj.payload.length ≤ maxField
  status : w.obj.payload = [] → w.obj.objectStatus = objectStatusNormal ∨
    w.obj.objectStatus = objectStatusEndOfGroup ∨ w.obj.objectStatus = objectStatusEndOfTrack
  flagged : w.obj.properties ≠ [] → h.properties = true
  normal : w.obj.properties ≠ [] → w.obj.wireStatus = objectStatusNormal
  properties : checkObjectProperties w.obj.properties h.groupID w.objectID = .ok ()

/-- A call failed for another reason than its Object ID. -/
def interrupted : Except WriteError Unit → Bool
  | .ok _ => false
  | .error (.objectIDNotIncreasing _ _) => false
  | .error _ => true

/-! ## One call of the writer -/

namespace OutgoingSubgroupStream

/-- A call that writes: `bytes` go out, and the Object ID is the one before from now on. -/
structure Sent (s s' : OutgoingSubgroupStream) (objectID : UInt64) (bytes : List UInt8) : Prop where
  header : s'.header = s.header
  dst : s'.dst = s.dst ++ bytes
  prevObject : s'.encPrevObject = objectID
  havePrev : s'.encHavePrev = true

def delta (s : OutgoingSubgroupStream) (objectID : UInt64) : UInt64 :=
  if s.encHavePrev then objectID - s.encPrevObject - 1 else objectID

variable {s : OutgoingSubgroupStream}

theorem send_sent {outcome : WriteOutcome} {obj : SubgroupObject}
    (h : interrupted (s.send outcome obj).1 = false) :
    Sent s (s.send outcome obj).2 (s.absoluteID obj.objectIDDelta)
      (obj.append s.header.properties) := by
  cases outcome with
  | done => exact ⟨rfl, rfl, rfl, rfl⟩
  | failed written timeout =>
    simp only [send] at h
    split_ifs at h <;> cases h

theorem writeObject_sent {around : Surroundings} {obj : SubgroupObject}
    (h : interrupted (s.writeObject around obj).1 = false) :
    Sent s (s.writeObject around obj).2 (s.absoluteID obj.objectIDDelta)
      (obj.append s.header.properties) := by
  simp only [writeObject] at h ⊢
  split_ifs at h ⊢
  · cases h
  · cases h
  · cases h
  · -- seeing the first Object changes timeouts only
    obtain ⟨hheader, hdst, hprev, hhave⟩ := send_sent h
    exact ⟨hheader, hdst, hprev, hhave⟩

theorem add_delta {objectID prev : UInt64} : prev + (objectID - prev - 1) + 1 = objectID := by
  rw [UInt64.add_assoc, UInt64.sub_add_cancel, UInt64.add_comm, UInt64.sub_add_cancel]

theorem writeObjectAt_sent {w : Write} (hinc : s.prev.all (· < w.objectID) = true)
    (h : interrupted (s.writeObjectAt w).1 = false) :
    Sent s (s.writeObjectAt w).2 w.objectID
      ((w.obj.withDelta (s.delta w.objectID)).append s.header.properties) := by
  unfold writeObjectAt at h ⊢
  unfold delta
  cases hprev : s.encHavePrev with
  | false =>
    simp only [hprev, Bool.false_eq_true, if_false] at h ⊢
    have hsent := writeObject_sent h
    simpa only [SubgroupObject.withDelta, absoluteID, hprev, Bool.false_eq_true, if_false] using
      hsent
  | true =>
    have hlt : s.encPrevObject < w.objectID := by simpa [prev, hprev] using hinc
    simp only [hprev, if_true, if_neg (UInt64.not_le.mpr hlt)] at h ⊢
    have hsent := writeObject_sent h
    simpa only [SubgroupObject.withDelta, absoluteID, hprev, if_true, add_delta] using hsent

theorem writeObjectAt_refused {w : Write} (hinc : s.prev.all (· < w.objectID) = false) :
    s.writeObjectAt w = (.error (.objectIDNotIncreasing w.objectID s.encPrevObject), s) := by
  cases hprev : s.encHavePrev with
  | false => simp [prev, hprev] at hinc
  | true =>
    have hle : w.objectID ≤ s.encPrevObject := by simpa [prev, hprev] using hinc
    rw [writeObjectAt, hprev, if_pos rfl, if_pos hle]

end OutgoingSubgroupStream

/-! ## One call of the reader -/

namespace IncomingSubgroupStream

/-- The stream after an Object with this ID. -/
def advance (s : IncomingSubgroupStream) (objectID : UInt64) : IncomingSubgroupStream :=
  { s with
    decPrevObject := objectID
    decHavePrev := true
    decSubgroupID :=
      if s.decSubgroupResolved then s.decSubgroupID else subgroupIDFrom s.header objectID
    decSubgroupResolved := true
    pendingPayload := 0 }

variable {maxField : Nat} {s : IncomingSubgroupStream}

theorem checkHeader_eq (obj : SubgroupObject) {n objectID : UInt64}
    (hvalid : n = 0 → obj.validate = .ok ())
    (hid : s.toIncomingSubgroupStream.readObjectHeader obj.objectIDDelta = .ok ⟨objectID, true⟩)
    (hprops : checkObjectProperties obj.properties s.header.groupID objectID = .ok ()) :
    s.checkHeader obj n = .ok ((obj, none), { s.advance objectID with pendingPayload := n }) := by
  have hcheck : (if n = 0 then obj.validate else .ok ()) = .ok () := by
    split_ifs with hn
    · exact hvalid hn
    · rfl
  have hresolve : resolveSubgroupID
      { s with toIncomingSubgroupStream := ⟨objectID, true⟩, pendingPayload := n } =
        { s.advance objectID with pendingPayload := n } := by
    unfold advance resolveSubgroupID
    split
    · next hres => rw [hres]
    · rfl
  have hnone : checkProperties { s.advance objectID with pendingPayload := n } obj = none := by
    unfold checkProperties
    split
    · rfl
    · show (match checkObjectProperties obj.properties s.header.groupID objectID with
        | .ok () => none
        | .error err => some _) = none
      rw [hprops]
  rw [checkHeader, hcheck, hid]
  simp only [hresolve, hnone]

theorem reads_readDecoded (o : SubgroupObject) {objectID : UInt64} (hmax : maxField < 2 ^ 64)
    (hfits : o.Fits maxField s.header.properties)
    (hvalid : o.payload = [] → o.validate = .ok ())
    (hid : s.toIncomingSubgroupStream.readObjectHeader o.objectIDDelta = .ok ⟨objectID, true⟩)
    (hprops : checkObjectProperties o.properties s.header.groupID objectID = .ok ()) :
    Reads (s.readDecoded maxField) (o.append s.header.properties)
      (⟨s.header.groupID, (s.advance objectID).decSubgroupID, objectID, o.wireStatus, o.properties,
        o.payload⟩, s.advance objectID) := by
  let hdr : SubgroupObject := ⟨o.objectIDDelta, o.properties, [], o.wireStatus⟩
  let n := UInt64.ofNat o.payload.length
  have hcheck : s.checkHeader hdr n =
      .ok ((hdr, none), { s.advance objectID with pendingPayload := n }) := by
    apply checkHeader_eq hdr _ hid hprops
    intro hn
    have hempty := length_eq_zero_iff.mp ((hfits.payloadLength_eq_zero hmax).mp hn)
    have hsame : hdr = o := by
      show (⟨o.objectIDDelta, o.properties, [], o.wireStatus⟩ : SubgroupObject) = o
      rw [SubgroupObject.wireStatus, if_pos (length_eq_zero_iff.mpr hempty), ← hempty]
    rw [hsame]
    exact hvalid hempty
  have hheader : Reads (s.readObjectHeader maxField) (o.appendHeader s.header.properties)
      ((hdr, none), { s.advance objectID with pendingPayload := n }) := by
    rw [← append_nil (o.appendHeader _)]
    refine ((SubgroupObject.reads_parseHeader hfits hmax).mapError _).bind ?_
    intro rest
    rw [hcheck]
    rfl
  have hpayload : Reads
      (readObjectPayload maxField { s.advance objectID with pendingPayload := n } hdr) o.payload
      ({ o with objectStatus := o.wireStatus }, s.advance objectID) :=
    ((SubgroupObject.reads_parsePayload hfits hmax).mapError _).map
  have hobject : Reads (s.readObject maxField) (o.append s.header.properties)
      ({ o with objectStatus := o.wireStatus }, s.advance objectID) := by
    rw [SubgroupObject.append_eq]
    refine hheader.bind ?_
    exact hpayload.map
  exact hobject.map

end IncomingSubgroupStream

/-! ## The two ends in step -/

/-- The reader has read what the writer wrote, on a stream whose first Object is `first`. -/
structure Follows (w : OutgoingSubgroupStream) (r : IncomingSubgroupStream) (first : UInt64) :
    Prop where
  header : r.header = w.header.onWire
  ids : r.toIncomingSubgroupStream = ⟨w.encPrevObject, w.encHavePrev⟩
  resolved : r.decSubgroupResolved = w.encHavePrev
  subgroup : w.encHavePrev = true → r.decSubgroupID = subgroupIDFrom w.header first

theorem subgroupIDFrom_onWire (h : WireSubgroupHeader) (first : UInt64) :
    subgroupIDFrom h.onWire first = subgroupIDFrom h first := by
  unfold subgroupIDFrom WireSubgroupHeader.onWire
  cases hmode : h.subgroupIDMode <;> simp

theorem readObjectHeader_delta {w : OutgoingSubgroupStream} {objectID : UInt64}
    (hinc : w.prev.all (· < objectID) = true) :
    Message.IncomingSubgroupStream.readObjectHeader ⟨w.encPrevObject, w.encHavePrev⟩
      (w.delta objectID) = .ok ⟨objectID, true⟩ := by
  unfold Message.IncomingSubgroupStream.readObjectHeader OutgoingSubgroupStream.delta
  cases hprev : w.encHavePrev with
  | false => rfl
  | true =>
    have hlt : w.encPrevObject < objectID := by
      simpa [OutgoingSubgroupStream.prev, hprev] using hinc
    have hnat : (objectID - w.encPrevObject - 1).toNat + w.encPrevObject.toNat + 1 =
        objectID.toNat := by
      have hlt' := UInt64.lt_iff_toNat_lt.mp hlt
      have hsub := UInt64.toNat_sub_of_le _ _ (UInt64.le_of_lt hlt)
      have hone : (1 : UInt64) ≤ objectID - w.encPrevObject := by
        rw [UInt64.le_iff_toNat_le, hsub, UInt64.toNat_one]
        omega
      rw [UInt64.toNat_sub_of_le _ _ hone, hsub, UInt64.toNat_one]
      omega
    have hbound := objectID.toNat_lt
    simp only [if_true, nextSubgroupObjectID]
    rw [if_pos (by omega), OutgoingSubgroupStream.add_delta]

namespace Follows

variable {w : OutgoingSubgroupStream} {r : IncomingSubgroupStream} {first : UInt64}

theorem decSubgroupID {objectID : UInt64} (h : Follows w r first)
    (hfirst : w.encHavePrev = false → objectID = first) :
    (r.advance objectID).decSubgroupID = subgroupIDFrom w.header first := by
  unfold IncomingSubgroupStream.advance
  rw [h.resolved, h.header]
  cases hprev : w.encHavePrev with
  | true => exact h.subgroup hprev
  | false =>
    rw [hfirst hprev]
    exact subgroupIDFrom_onWire w.header first

theorem advance {w' : OutgoingSubgroupStream} {objectID : UInt64} {bytes : List UInt8}
    (h : Follows w r first) (hsent : w.Sent w' objectID bytes)
    (hfirst : w.encHavePrev = false → objectID = first) :
    Follows w' (r.advance objectID) first where
  header := by rw [hsent.header]; exact h.header
  ids := by rw [hsent.prevObject, hsent.havePrev]; rfl
  resolved := hsent.havePrev.symm
  subgroup _ := by rw [hsent.header]; exact h.decSubgroupID hfirst

end Follows

namespace Write.Writable

variable {maxField : Nat} {h : WireSubgroupHeader} {w : Write}

theorem fits (hw : w.Writable maxField h) (hprops : w.obj.properties.length ≤ maxField)
    (delta : UInt64) :
    (w.obj.withDelta delta).Fits maxField h.properties where
  absent habsent := by
    by_contra hne
    rw [hw.flagged hne] at habsent
    cases habsent
  properties := hprops
  payload := hw.payload

theorem validate (hw : w.Writable maxField h) (delta : UInt64) (hempty : w.obj.payload = []) :
    (w.obj.withDelta delta).validate = .ok () := by
  have hnormal : w.obj.properties ≠ [] → w.obj.objectStatus = objectStatusNormal := by
    intro hne
    have hstatus := hw.normal hne
    rwa [SubgroupObject.wireStatus, if_pos (length_eq_zero_iff.mpr hempty)] at hstatus
  unfold SubgroupObject.validate SubgroupObject.withDelta
  rw [if_pos (length_eq_zero_iff.mpr hempty), if_neg, if_neg]
  · rintro ⟨hstatus, hlen⟩
    exact hstatus (hnormal (ne_nil_of_length_pos hlen))
  · rintro ⟨hn, hg, ht⟩
    rcases hw.status hempty with h | h | h
    · exact hn h
    · exact hg h
    · exact ht h

end Write.Writable

namespace Follows

variable {maxField : Nat} {w : OutgoingSubgroupStream} {r : IncomingSubgroupStream}
  {first : UInt64}

theorem reads {x : Write} (h : Follows w r first) (hmax : maxField < 2 ^ 64)
    (hx : x.Writable maxField w.header) (hprops : x.obj.properties.length ≤ maxField)
    (hinc : w.prev.all (· < x.objectID) = true)
    (hfirst : w.encHavePrev = false → x.objectID = first) :
    Reads (r.readDecoded maxField)
      ((x.obj.withDelta (w.delta x.objectID)).append w.header.properties)
      (x.decoded w.header first, r.advance x.objectID) := by
  have hflag : r.header.properties = w.header.properties := by rw [h.header]; rfl
  have hgroup : r.header.groupID = w.header.groupID := by rw [h.header]; rfl
  have hread := r.reads_readDecoded (x.obj.withDelta (w.delta x.objectID)) hmax
    (hflag ▸ hx.fits hprops _) (hx.validate _) (h.ids ▸ readObjectHeader_delta hinc)
    (hgroup ▸ hx.properties)
  rw [hflag, hgroup, h.decSubgroupID hfirst] at hread
  exact hread

/-- **All Objects, in order**: by induction on the calls, the two ends in step. -/
theorem reads_all (hmax : maxField < 2 ^ 64) :
    ∀ {xs : List Write} {w : OutgoingSubgroupStream} {r : IncomingSubgroupStream},
      Follows w r first → (∀ x ∈ increasing w.prev xs, x.Writable maxField w.header) →
      (∀ x ∈ increasing w.prev xs, x.obj.properties.length ≤ maxField) →
      (∀ e ∈ (w.writeAll xs).1, interrupted e = false) →
      (w.encHavePrev = false → ∀ x ∈ (increasing none xs).head?, x.objectID = first) →
      ∃ body r', (w.writeAll xs).2.dst = w.dst ++ body ∧
        Reads (r.readDecodedTimes maxField (increasing w.prev xs).length) body
          ((increasing w.prev xs).map (Write.decoded w.header first), r') := by
  intro xs
  induction xs with
  | nil =>
    intro w r _ _ _ _ _
    exact ⟨[], r, (append_nil _).symm, reads_pure _⟩
  | cons x xs ih =>
    intro w r h hw hprops hsent hfirst
    obtain ⟨hxe, hxse⟩ := forall_mem_cons.mp hsent
    cases hinc : w.prev.all (· < x.objectID) with
    | false =>
      -- the call is refused, and nothing has changed
      have hrefused := OutgoingSubgroupStream.writeObjectAt_refused hinc
      have hprev : w.encHavePrev = true := by
        by_contra hne
        simp [OutgoingSubgroupStream.prev, hne] at hinc
      have hcalls : (w.writeAll (x :: xs)).2 = (w.writeAll xs).2 := by
        rw [OutgoingSubgroupStream.writeAll, hrefused]
      have hskip : increasing w.prev (x :: xs) = increasing w.prev xs := by
        rw [increasing, hinc, if_neg Bool.false_ne_true]
      rw [hrefused] at hxse
      rw [hskip] at hw hprops
      rw [hcalls, hskip]
      refine ih h hw hprops hxse ?_
      intro hnone
      rw [hprev] at hnone
      cases hnone
    | true =>
      have hcall := OutgoingSubgroupStream.writeObjectAt_sent hinc hxe
      have hxfirst : w.encHavePrev = false → x.objectID = first := by
        intro hnone
        exact hfirst hnone x (by simp [increasing])
      have hstep := h.advance hcall hxfirst
      have hprev' : (w.writeObjectAt x).2.prev = some x.objectID := by
        rw [OutgoingSubgroupStream.prev, hcall.havePrev, hcall.prevObject, if_pos rfl]
      have hkeep : increasing w.prev (x :: xs) =
          x :: increasing (w.writeObjectAt x).2.prev xs := by
        rw [increasing, hinc, if_pos rfl, hprev']
      rw [hkeep] at hw hprops
      obtain ⟨hx, hxs⟩ := forall_mem_cons.mp hw
      obtain ⟨hxp, hxsp⟩ := forall_mem_cons.mp hprops
      obtain ⟨body, r', hdst, hreads⟩ := ih hstep (by rwa [hcall.header]) hxsp hxse (by
        intro hnone
        rw [hcall.havePrev] at hnone
        cases hnone)
      refine ⟨(x.obj.withDelta (w.delta x.objectID)).append w.header.properties ++ body, r',
        ?_, ?_⟩
      · show ((w.writeObjectAt x).2.writeAll xs).2.dst = _
        rw [hdst, hcall.dst, append_assoc]
      · rw [hcall.header] at hreads
        rw [hkeep]
        exact (h.reads hmax hx hxp hinc hxfirst).bind hreads.map

end Follows

/-! ## Round trip -/

/-- The ID of the first Object of a stream with these. -/
def firstID : List Write → UInt64
  | [] => 0
  | w :: _ => w.objectID

theorem increasing_eq_self : ∀ {ws : List Write} {prev : Option UInt64},
    (∀ w ∈ ws.head?, prev.all (· < w.objectID) = true) →
    ws.IsChain (fun w w' => w.objectID < w'.objectID) → increasing prev ws = ws := by
  intro ws
  induction ws with
  | nil =>
    intro prev _ _
    rfl
  | cons w ws ih =>
    intro prev hhead hchain
    rw [increasing, if_pos (hhead w rfl), ih _ hchain.tail]
    intro w' hw'
    rw [Option.all_some, decide_eq_true_iff]
    exact hchain.rel_head? hw'

/-- **What is written on a Subgroup stream is read from it.** The calls are any whose Objects may be
    written, with the timeouts of either side, and none is stopped by anything but its Object ID.
    The reader gets the header, as far as it is on the wire; then exactly the Objects whose IDs
    increase; then a clean end. A call whose ID does not exceed the one before is as if it had not
    been made. -/
theorem subgroup_stream_round_trip {maxField : Nat} (hmax : maxField < 2 ^ 63)
    (h : WireSubgroupHeader) (publisher subscriber : DeliveryTimeouts) (ws : List Write)
    (hw : ∀ w ∈ increasing none ws, w.Writable maxField h)
    (hprops : ∀ w ∈ increasing none ws, w.obj.properties.length ≤ maxField)
    (hsent : ∀ e ∈ (((openSubgroup h).withDeliveryTimeouts publisher subscriber).writeAll ws).1,
      interrupted e = false) :
    (∃ body last,
      acceptSubgroup (((openSubgroup h).withDeliveryTimeouts publisher subscriber).writeAll
        ws).2.dst = .ok ({ header := h.onWire }, body) ∧
      IncomingSubgroupStream.readDecodedTimes maxField (increasing none ws).length
        { header := h.onWire } body =
          .ok (((increasing none ws).map (Write.decoded h (firstID (increasing none ws))), last),
            []) ∧
      last.readDecoded maxField [] = .error .eof) ∧
    (ws.IsChain (fun w w' => w.objectID < w'.objectID) → increasing none ws = ws) ∧
    ∀ (s : OutgoingSubgroupStream) (w : Write) (later : List Write), s.encHavePrev = true →
      w.objectID ≤ s.encPrevObject →
      s.writeAll (w :: later) =
        (.error (.objectIDNotIncreasing w.objectID s.encPrevObject) :: (s.writeAll later).1,
          (s.writeAll later).2) := by
  refine ⟨?_, increasing_eq_self (fun _ _ => rfl), ?_⟩
  · have hfollows : Follows ((openSubgroup h).withDeliveryTimeouts publisher subscriber)
        { header := h.onWire } (firstID (increasing none ws)) := ⟨rfl, rfl, rfl, nofun⟩
    obtain ⟨body, last, hdst, hreads⟩ := Follows.reads_all (by omega) hfollows hw hprops hsent (by
      intro _ x hx
      cases hinc : increasing none ws with
      | nil => simp [hinc] at hx
      | cons y ys =>
        rw [hinc] at hx
        cases hx
        rfl)
    refine ⟨body, last, ?_, hreads.run_nil, rfl⟩
    rw [hdst]
    have haccept : Reads acceptSubgroup (writeSubgroupHeader h) { header := h.onWire } :=
      (reads_header h).map
    exact haccept body
  · intro s w later hprev hle
    have hrefused : s.writeObjectAt w =
        (.error (.objectIDNotIncreasing w.objectID s.encPrevObject), s) :=
      s.writeObjectAt_refused (by simpa [OutgoingSubgroupStream.prev, hprev] using hle)
    rw [OutgoingSubgroupStream.writeAll, hrefused]

/-- A header in the first-object mode, and four calls: the second is refused, the third has
    Properties, and the last ends the Group. -/
def sampleHeader : WireSubgroupHeader :=
  { properties := true
    subgroupIDMode := .implicitFirstObject
    groupID := 5
    subgroupID := 77
    publisherPriority := 3
    inlinePriority := true
    trackAlias := 300 }

@[inherit_doc sampleHeader] def sampleWrites : List Write :=
  [⟨10, { payload := [1, 2] }, {}⟩, ⟨10, { payload := [9] }, {}⟩,
    ⟨12, { properties := [0x3E, 4], payload := [3] }, {}⟩, ⟨13, { objectStatus := 3 }, {}⟩]

theorem subgroup_stream_round_trip_refused :
    (increasing none sampleWrites).map (Write.decoded sampleHeader 10) =
      [⟨5, 10, 10, 0, [], [1, 2]⟩, ⟨5, 10, 12, 0, [0x3E, 4], [3]⟩, ⟨5, 10, 13, 3, [], []⟩] ∧
    ∃ body last,
      acceptSubgroup (((openSubgroup sampleHeader).withDeliveryTimeouts {} {}).writeAll
        sampleWrites).2.dst = .ok ({ header := sampleHeader.onWire }, body) ∧
      IncomingSubgroupStream.readDecodedTimes 16 (increasing none sampleWrites).length
        { header := sampleHeader.onWire } body =
          .ok (((increasing none sampleWrites).map
            (Write.decoded sampleHeader (firstID (increasing none sampleWrites))), last), []) ∧
      last.readDecoded 16 [] = .error .eof := by
  refine ⟨by decide +kernel, ?_⟩
  refine (subgroup_stream_round_trip (by decide) sampleHeader {} {} sampleWrites ?_
    (by decide +kernel) (by decide +kernel)).1
  have hkept : increasing none sampleWrites =
      [⟨10, { payload := [1, 2] }, {}⟩, ⟨12, { properties := [0x3E, 4], payload := [3] }, {}⟩,
        ⟨13, { objectStatus := 3 }, {}⟩] := by decide +kernel
  rw [hkept]
  intro w hw
  simp only [mem_cons, not_mem_nil, or_false] at hw
  rcases hw with rfl | rfl | rfl
  all_goals exact ⟨by decide, by decide, by decide, by decide, by decide +kernel⟩

/-- One Object with `n` pairs of Properties. -/
def zerosWrite (n : Nat) : Write :=
  ⟨0, { properties := List.replicate (2 * n) 0, payload := [1] }, {}⟩

theorem readDecoded_fieldTooLarge {maxField n : Nat} {s : IncomingSubgroupStream}
    (hflag : s.header.properties = true) (hbig : maxField < 2 * n) (hmax : 2 * n < 2 ^ 64) :
    s.readDecoded maxField ((zerosWrite n).obj.append true) =
      .error (.object (.properties (.fieldTooLarge (UInt64.ofNat (2 * n))))) := by
  have hlen : (zerosWrite n).obj.properties.length = 2 * n := length_replicate
  have hparse : SubgroupObject.parseHeader maxField s.header.properties
      ((zerosWrite n).obj.append true) =
        .error (.properties (.fieldTooLarge (UInt64.ofNat (2 * n)))) := by
    rw [hflag, ← hlen]
    rw [← hlen] at hbig hmax
    refine ((Wire.reads_readVarint _).mapError _).bind_error ?_
    exact Parser.bind_fails
      (Parser.mapError_fails (Wire.StreamReader.varintBytes_fieldTooLarge hbig hmax _) _)
  apply Parser.bind_fails
  apply Parser.bind_fails
  apply Parser.bind_fails
  exact Parser.mapError_fails hparse _

theorem OutgoingSubgroupStream.writeObject_now (s : OutgoingSubgroupStream) (obj : SubgroupObject) :
    s.writeObject {} obj = (s.seeFirstObject obj).send .done obj := by
  have htime : (s.seeFirstObject obj).timedOut 0 = false := by
    rw [timedOut, Bool.and_eq_false_iff, decide_eq_false_iff_not, decide_eq_false_iff_not]
    by_contra hboth
    push Not at hboth
    exact Int64.lt_irrefl (Int64.lt_trans hboth.1 hboth.2)
  simp only [writeObject, htime, Bool.false_eq_true, if_false]

theorem zerosWrite_not_decoded {maxField n : Nat} (hbig : maxField < 2 * n)
    (hmax : 2 * n < 2 ^ 64) :
    ((openSubgroup { properties := true }).writeAll [zerosWrite n]).1 = [.ok ()] ∧
    ∃ body,
      acceptSubgroup ((openSubgroup { properties := true }).writeAll [zerosWrite n]).2.dst =
        .ok ({ header := { properties := true } }, body) ∧
      IncomingSubgroupStream.readDecoded maxField { header := { properties := true } } body =
        .error (.object (.properties (.fieldTooLarge (UInt64.ofNat (2 * n))))) := by
  have hsend : (openSubgroup { properties := true }).writeObjectAt (zerosWrite n) =
      OutgoingSubgroupStream.send
        ((openSubgroup { properties := true }).seeFirstObject (zerosWrite n).obj) .done
        (zerosWrite n).obj := OutgoingSubgroupStream.writeObject_now _ _
  have haccept : Reads acceptSubgroup (writeSubgroupHeader { properties := true })
      { header := { properties := true } } := (reads_header { properties := true }).map
  rw [OutgoingSubgroupStream.writeAll, hsend]
  exact ⟨rfl, (zerosWrite n).obj.append true, haccept _, readDecoded_fieldTooLarge rfl hbig hmax⟩

/-- 16 MiB and two bytes of Properties pass `CheckObjectProperties` and are written, but are more
    than a stream's reader takes for one field. -/
theorem long_properties_not_decoded :
    (zerosWrite (2 ^ 23 + 1)).Writable Wire.maxStreamFieldSize { properties := true } ∧
    ((openSubgroup { properties := true }).writeAll [zerosWrite (2 ^ 23 + 1)]).1 = [.ok ()] ∧
    ∃ body,
      acceptSubgroup ((openSubgroup { properties := true }).writeAll
        [zerosWrite (2 ^ 23 + 1)]).2.dst = .ok ({ header := { properties := true } }, body) ∧
      IncomingSubgroupStream.readDecoded Wire.maxStreamFieldSize
        { header := { properties := true } } body =
          .error (.object (.properties (.fieldTooLarge 16777218))) :=
  ⟨⟨by decide, nofun, fun _ => rfl, fun _ => rfl, checkObjectProperties_zeros _ _ _⟩,
    zerosWrite_not_decoded (by decide) (by decide)⟩

end MoqGo.Session
