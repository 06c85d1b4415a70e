import MoqGo.Relay.Fetch.Elements
import MoqGo.Session.FetchStream

/-!
# Writing a FETCH response (`pkg/relay/handler_fetch.go`)

`streamFetchObjects` writes the elements of a response with the delta encoding of §11.4.1. It is
the mirror of `IncomingFetchStream.ReadDecoded`, each side with running state of its own: the
writer **infers** the direction of Groups from the elements it sees, the reader is told. `Mirrors`
is what keeps the two in step, and **`readAll_streamFetchObjects`** the round trip of a whole
response.
-/

namespace MoqGo.Relay

open Message Session List UInt64

/-! ## The encoder -/

/-- `streamFetchObjects`' running state. -/
structure FetchEncoder where
  prevGroup : UInt64 := 0
  prevObject : UInt64 := 0
  prevPriority : UInt8 := 0
  havePrev : Bool := false
  haveActual : Bool := false
  descending : Bool := false
deriving DecidableEq, Repr, Inhabited

/-- The order violation `streamFetchObjects` reports: an Object not after the one before it in
    its Group. -/
structure FetchOrderError where
  object : Location
  prior : Location
deriving DecidableEq, Repr

/-- The Location of the next Object on the wire: the two deltas, each only if its flag is set, and
    the direction of Groups from here on. -/
structure LocationDelta where
  groupIDDelta : Option UInt64 := none
  objectIDDelta : Option UInt64 := none
  descending : Bool := false

namespace FetchEncoder

/-- The direction of Groups, at an Object of another Group than the one before. -/
def direction (s : FetchEncoder) (group : UInt64) : Bool :=
  if !s.descending && decide (group < s.prevGroup) then true
  else if s.descending && decide (s.prevGroup < group) then false
  else s.descending

/-- The first `switch` of `streamFetchObjects`. -/
def delta (s : FetchEncoder) (o : CachedObject) : Except FetchOrderError LocationDelta :=
  if !s.havePrev then
    .ok { groupIDDelta := some o.groupID
          objectIDDelta := some o.objectID
          descending := s.descending }
  else if o.groupID ≠ s.prevGroup then
    let descending := s.direction o.groupID
    .ok { groupIDDelta := some
            (if descending then s.prevGroup - o.groupID - 1 else o.groupID - s.prevGroup - 1)
          objectIDDelta := some o.objectID
          descending := descending }
  else if o.objectID ≤ s.prevObject then .error ⟨o.loc, ⟨s.prevGroup, s.prevObject⟩⟩
  else if o.objectID ≠ s.prevObject + 1 then
    .ok { objectIDDelta := some (o.objectID - s.prevObject)
          descending := s.descending }
  else .ok { descending := s.descending }

/-- The flags `streamFetchObjects` collects for an Object. -/
def objectFlags (group object datagram priority properties : Bool) : UInt64 :=
  let flags := (if group then fetchFlagGroupIDDelta else 0) |||
    if object then fetchFlagObjectIDDelta else 0
  let flags :=
    if datagram then flags ||| fetchFlagDatagram
    else flags &&& ~~~fetchFlagSubgroupIDMode ||| fetchSubgroupIDExplicit
  let flags := if priority then flags ||| fetchFlagPriority else flags
  if properties then flags ||| fetchFlagProperties else flags

/-- Whether an Object's priority is written: it differs from the prior Object's, or there is
    none. -/
def writesPriority (s : FetchEncoder) (o : CachedObject) : Bool :=
  !s.haveActual || o.publisherPriority != s.prevPriority

/-- An Object on the wire. -/
def object (s : FetchEncoder) (o : CachedObject) (d : LocationDelta) : FetchObject :=
  let datagram := o.forwardingPref == .datagram
  { serializationFlags := objectFlags d.groupIDDelta.isSome d.objectIDDelta.isSome datagram
      (s.writesPriority o) (!o.properties.isEmpty)
    groupIDDelta := d.groupIDDelta.getD 0
    subgroupID := if datagram then 0 else o.subgroupID
    objectIDDelta := d.objectIDDelta.getD 0
    publisherPriority := if s.writesPriority o then o.publisherPriority else 0
    properties := o.properties
    objectPayload := o.payload }

/-- The state after an Object. -/
def afterObject (o : CachedObject) (d : LocationDelta) : FetchEncoder :=
  { prevGroup := o.groupID
    prevObject := o.objectID
    prevPriority := o.publisherPriority
    havePrev := true
    haveActual := true
    descending := d.descending }

/-- An End of Range marker on the wire. -/
def encodeMarker (o : CachedObject) : FetchObject :=
  { serializationFlags := if o.endOfTimedOutRange then fetchEndOfTimedOutRange
      else fetchEndOfUnknownRange
    groupIDDelta := o.groupID
    objectIDDelta := o.objectID }

def afterMarker (s : FetchEncoder) (o : CachedObject) : FetchEncoder :=
  { s with prevGroup := o.groupID, prevObject := o.objectID, havePrev := true }

end FetchEncoder

/-- What `streamFetchObjects` wrote, how many Objects of it, and the error it stopped at. -/
structure FetchWritten where
  bytes : List UInt8 := []
  written : Nat := 0
  err : Option FetchOrderError := none
deriving DecidableEq, Repr

/-- What is written, after `bytes` with `n` Objects. -/
def FetchWritten.after (w : FetchWritten) (bytes : List UInt8) (n : Nat) : FetchWritten :=
  { w with bytes := bytes ++ w.bytes, written := n + w.written }

/-- `streamFetchObjects`' loop. The stream's writes succeed. -/
def streamFrom (expired : CachedObject → Bool) : FetchEncoder → List CachedObject → FetchWritten
  | _, [] => {}
  | s, o :: objs =>
    -- an Object that expired is marked unknown: a gap would say it does not exist
    let o := if !o.isRangeMarker && !o.isStatusMarker && expired o then unknownRangeMarker o.loc
      else o
    if o.isRangeMarker then
      (streamFrom expired (s.afterMarker o) objs).after (FetchEncoder.encodeMarker o).append 0
    else if o.isStatusMarker then streamFrom expired s objs
    else
      match s.delta o with
      | .error err => { err := some err }
      | .ok d =>
        (streamFrom expired (FetchEncoder.afterObject o d) objs).after (s.object o d).append 1

/-- `streamFetchObjects`. -/
def streamFetchObjects (expired : CachedObject → Bool) (objs : List CachedObject) : FetchWritten :=
  streamFrom expired {} objs

/-! ## Reading back -/

/-- What a reader is to make of an element. -/
def decodedOf (o : CachedObject) : DecodedFetchObject :=
  { groupID := o.groupID
    objectID := o.objectID
    subgroupID := if o.forwardingPref == .datagram then 0 else o.subgroupID
    publisherPriority := o.publisherPriority
    properties := o.properties
    payload := o.payload
    datagram := o.forwardingPref == .datagram
    endOfUnknownRange := o.endOfUnknownRange
    endOfTimedOutRange := o.endOfTimedOutRange }

/-- **The encoder and the decoder are in step.** -/
structure Mirrors (s : FetchEncoder) (r : IncomingFetchStream) : Prop where
  group : r.decPrevGroup = s.prevGroup
  object : r.decPrevObject = s.prevObject
  havePrev : r.decHavePrev = s.havePrev
  haveActual : r.decHaveActual = s.haveActual
  priority : s.haveActual = true → r.decPrevPriority = s.prevPriority

namespace FetchEncoder

theorem objectFlags_spec (group object datagram priority properties : Bool) :
    objectFlags group object datagram priority properties < 128 ∧
    (objectFlags group object datagram priority properties &&& fetchFlagGroupIDDelta != 0) = group ∧
    (objectFlags group object datagram priority properties &&& fetchFlagObjectIDDelta != 0) =
      object ∧
    (objectFlags group object datagram priority properties &&& fetchFlagDatagram != 0) = datagram ∧
    (objectFlags group object datagram priority properties &&& fetchFlagPriority != 0) = priority ∧
    (objectFlags group object datagram priority properties &&& fetchFlagProperties != 0) =
      properties ∧
    objectFlags group object datagram priority properties &&& fetchFlagSubgroupIDMode =
      (if datagram then 0 else fetchSubgroupIDExplicit) ∧
    (datagram = true → objectFlags group object datagram priority properties &&&
      ~~~fetchFlagSubgroupIDMode = objectFlags group object datagram priority properties) := by
  cases group <;> cases object <;> cases datagram <;> cases priority <;> cases properties <;> decide

theorem direction_eq {s : FetchEncoder} {group : UInt64} (h : group ≠ s.prevGroup) :
    s.direction group = decide (group < s.prevGroup) := by
  unfold direction
  grind

end FetchEncoder

/-- The deltas `d` take the reader `r` to `loc`: whatever Object carries them, with flags that
    say which are there. -/
def LocationDelta.Resolves (d : LocationDelta) (r : IncomingFetchStream) (loc : Location) : Prop :=
  ∀ raw : FetchObject, raw.has fetchFlagGroupIDDelta = d.groupIDDelta.isSome →
    raw.has fetchFlagObjectIDDelta = d.objectIDDelta.isSome →
    raw.groupIDDelta = d.groupIDDelta.getD 0 → raw.objectIDDelta = d.objectIDDelta.getD 0 →
    r.readLocation raw = .ok loc

section

open IncomingFetchStream

variable {x y : UInt64}

theorem add64_sub (h : x < y) : add64 x (y - x) 0 = some y := by
  have hlt := lt_iff_toNat_lt.mp h
  have hy := y.toNat_lt
  have hsub := UInt64.toNat_sub_of_le _ _ (UInt64.le_iff_toNat_le.mpr hlt.le)
  have hsum : x + (y - x) + 0 = y := by grind
  rw [add64, if_pos, hsum]
  rw [hsub, UInt64.toNat_zero]
  omega

theorem toNat_distance (h : x < y) : (y - x - 1).toNat + 1 = y.toNat - x.toNat := by
  have hlt := lt_iff_toNat_lt.mp h
  have hsub := UInt64.toNat_sub_of_le _ _ (UInt64.le_iff_toNat_le.mpr hlt.le)
  rw [toNat_sub_one, hsub]
  apply lt_iff_toNat_lt.mpr
  rw [hsub]
  exact Nat.sub_pos_of_lt hlt

theorem add64_distance (h : x < y) : add64 x (y - x - 1) 1 = some y := by
  have hy := y.toNat_lt
  have hdist := toNat_distance h
  have hsum : x + (y - x - 1) + 1 = y := by grind
  rw [add64, if_pos, hsum]
  rw [toNat_one]
  omega

theorem sub64_distance (h : y < x) : sub64 x (x - y - 1) 1 = some y := by
  have hdist := toNat_distance h
  have hdiff : x - (x - y - 1) - 1 = y := by grind
  rw [sub64, if_pos, hdiff]
  rw [toNat_one]
  omega

theorem add64_succ (h : x < x + 1) : add64 x 0 1 = some (x + 1) := by
  have hlt := lt_iff_toNat_lt.mp h
  have hy := (x + 1).toNat_lt
  have hsum : x + 0 + 1 = x + 1 := by grind
  rw [add64, if_pos, hsum]
  rw [UInt64.toNat_one, UInt64.toNat_zero]
  omega

end

variable {a b : Location} {s : FetchEncoder} {r r' : IncomingFetchStream} {o : CachedObject}
  {maxField : Nat} {fo : FetchObject} {expired : CachedObject → Bool} {objs : List CachedObject}

theorem group_of_ascending (h : streamRank .ascending a < streamRank .ascending b)
    (hne : b.group ≠ a.group) : a.group < b.group := by
  have hne := mt UInt64.toNat_inj.mp hne
  have hb := b.object.toNat_lt
  simp only [streamRank, Location.rank] at h
  exact lt_iff_toNat_lt.mpr (by omega)

theorem group_of_descending (h : streamRank .descending a < streamRank .descending b)
    (hne : b.group ≠ a.group) : b.group < a.group := by
  have hne := mt UInt64.toNat_inj.mp hne
  have h := streamRank_descending_lt.mp h
  exact lt_iff_toNat_lt.mpr (by omega)

theorem object_of_streamRank_lt {order : GroupOrder} (h : streamRank order a < streamRank order b)
    (heq : b.group = a.group) : a.object < b.object := by
  have heq := congrArg UInt64.toNat heq
  cases order with
  | ascending =>
    simp only [streamRank, Location.rank] at h
    exact lt_iff_toNat_lt.mpr (by omega)
  | descending =>
    have h := streamRank_descending_lt.mp h
    exact lt_iff_toNat_lt.mpr (by omega)

/-- **The deltas of an Object that comes later in stream order** take the reader to it. -/
theorem FetchEncoder.delta_resolves (hm : Mirrors s r) (hlt : s.havePrev = true →
      streamRank r.groupOrder ⟨s.prevGroup, s.prevObject⟩ < streamRank r.groupOrder o.loc) :
    ∃ d, s.delta o = .ok d ∧ d.Resolves r o.loc := by
  unfold FetchEncoder.delta
  cases hprev : s.havePrev with
  | false =>
    refine ⟨_, rfl, ?_⟩
    intro raw hg ho hgd hod
    simp [IncomingFetchStream.readLocation, hm.havePrev, hprev, hg, ho, hgd, hod, CachedObject.loc]
  | true =>
    have hlt := hlt hprev
    have hread (raw : FetchObject) {loc : Location} (hg : r.nextGroup raw = some loc.group)
        (ho : r.nextObject raw = some loc.object) : r.readLocation raw = .ok loc := by
      simp [IncomingFetchStream.readLocation, hm.havePrev, hprev, hg, ho]
    by_cases hgroup : o.groupID = s.prevGroup
    · have hobject : s.prevObject < o.objectID := object_of_streamRank_lt hlt hgroup
      by_cases hnext : o.objectID = s.prevObject + 1
      · refine ⟨{ descending := s.descending }, ?_, ?_⟩
        · simp [hgroup, hnext, UInt64.not_le.mpr (hnext ▸ hobject)]
        · intro raw hg ho _ _
          apply hread
          · simp [IncomingFetchStream.nextGroup, hg, hm.group, CachedObject.loc, hgroup]
          · simp only [IncomingFetchStream.nextObject, ho, hm.object, CachedObject.loc, hnext]
            exact add64_succ (hnext ▸ hobject)
      · refine ⟨{ objectIDDelta := some (o.objectID - s.prevObject),
                  descending := s.descending }, ?_, ?_⟩
        · simp [hgroup, hnext, UInt64.not_le.mpr hobject]
        · intro raw hg ho _ hod
          apply hread
          · simp [IncomingFetchStream.nextGroup, hg, hm.group, CachedObject.loc, hgroup]
          · simp only [IncomingFetchStream.nextObject, hg, ho, hm.object, hod]
            exact add64_sub hobject
    · refine ⟨_, by simp [hgroup]; rfl, ?_⟩
      intro raw hg ho hgd hod
      apply hread
      · simp only [IncomingFetchStream.nextGroup, hg, hgd, hm.group, direction_eq hgroup]
        cases horder : r.groupOrder with
        | ascending =>
          rw [horder] at hlt
          have hdir : s.prevGroup < o.groupID := group_of_ascending hlt hgroup
          simp only [UInt64.not_lt.mpr (UInt64.le_of_lt hdir), decide_false]
          exact add64_distance hdir
        | descending =>
          rw [horder] at hlt
          have hdir : o.groupID < s.prevGroup := group_of_descending hlt hgroup
          simp only [hdir, decide_true]
          exact sub64_distance hdir
      · simp only [IncomingFetchStream.nextObject, hg, ho, hod]
        rfl

/-- What the elements of a response are: Objects whose Properties the reader accepts, with
    fields that fit, and the two kinds of markers. -/
structure Serializable (maxField : Nat) (o : CachedObject) : Prop where
  marker : o.isRangeMarker = true → o = unknownRangeMarker o.loc ∨ o = timedOutRangeMarker o.loc
  properties : checkObjectProperties o.properties o.groupID o.objectID = .ok ()
  propertiesFit : o.isStatusMarker = false → o.properties.length ≤ maxField
  payloadFits : o.payload.length ≤ maxField

/-- What the flags of an Object on the wire say. -/
structure FetchEncoder.Flagged (s : FetchEncoder) (o : CachedObject) (d : LocationDelta) :
    Prop where
  lt : (s.object o d).serializationFlags < 128
  group : (s.object o d).has fetchFlagGroupIDDelta = d.groupIDDelta.isSome
  object : (s.object o d).has fetchFlagObjectIDDelta = d.objectIDDelta.isSome
  datagram : (s.object o d).isDatagram = (o.forwardingPref == .datagram)
  priority : (s.object o d).has fetchFlagPriority = s.writesPriority o
  properties : (s.object o d).has fetchFlagProperties = !o.properties.isEmpty
  mode : (s.object o d).subgroupMode =
    if o.forwardingPref == .datagram then 0 else fetchSubgroupIDExplicit
  wire : (s.object o d).wireFlags = (s.object o d).serializationFlags

theorem FetchEncoder.flagged (s : FetchEncoder) (o : CachedObject) (d : LocationDelta) :
    s.Flagged o d := by
  obtain ⟨hlt, hgroup, hobject, hdatagram, hpriority, hproperties, hmode, hclear⟩ :=
    objectFlags_spec d.groupIDDelta.isSome d.objectIDDelta.isSome (o.forwardingPref == .datagram)
      (s.writesPriority o) (!o.properties.isEmpty)
  refine ⟨hlt, hgroup, hobject, hdatagram, hpriority, hproperties, hmode, ?_⟩
  unfold FetchObject.wireFlags
  split_ifs with h
  · exact hclear (hdatagram.symm.trans (Bool.and_eq_true_iff.mp h).1)
  · rfl

theorem FetchEncoder.canonical_object {d : LocationDelta} (ho : Serializable maxField o)
    (hwritten : o.isStatusMarker = false) : (s.object o d).Canonical maxField := by
  have hf := s.flagged o d
  refine ⟨hf.lt, hf.wire, ?_, ?_, ?_, ?_, ?_, ho.propertiesFit hwritten, ho.payloadFits⟩
  · intro h
    rw [hf.group, Option.isSome_eq_false_iff, Option.isNone_iff_eq_none] at h
    simp [FetchEncoder.object, h]
  · intro h
    rw [FetchObject.hasSubgroupIDField, hf.mode, hf.datagram] at h
    cases hd : o.forwardingPref == .datagram with
    | true => simp [FetchEncoder.object, hd]
    | false => simp [hd] at h
  · intro h
    rw [hf.object, Option.isSome_eq_false_iff, Option.isNone_iff_eq_none] at h
    simp [FetchEncoder.object, h]
  · intro h
    rw [hf.priority] at h
    simp [FetchEncoder.object, h]
  · intro h
    rw [hf.properties, Bool.not_eq_false', List.isEmpty_iff] at h
    exact h

/-- The decoder's state after an Object. -/
def readerAfter (r : IncomingFetchStream) (o : CachedObject) : IncomingFetchStream :=
  { r with
    decPrevGroup := o.groupID
    decPrevObject := o.objectID
    decPrevSubgroup := if o.forwardingPref == .datagram then r.decPrevSubgroup else o.subgroupID
    decPrevPriority := o.publisherPriority
    decHavePrev := true
    decHaveActual := true }

theorem mirrors_readerAfter (r : IncomingFetchStream) (o : CachedObject) (d : LocationDelta) :
    Mirrors (FetchEncoder.afterObject o d) (readerAfter r o) :=
  ⟨rfl, rfl, rfl, rfl, fun _ => rfl⟩

theorem FetchEncoder.resolve_object {d : LocationDelta} (hm : Mirrors s r)
    (ho : Serializable maxField o) (hobject : o.isRangeMarker = false) (hd : d.Resolves r o.loc) :
    r.resolve (s.object o d) = .ok (decodedOf o, readerAfter r o) := by
  have hf := s.flagged o d
  have hrange := FetchObject.isEndOfRange_of_lt hf.lt
  have hloc : r.readLocation (s.object o d) = .ok o.loc := hd _ hf.group hf.object rfl rfl
  have hprior : r.checkPrior (s.object o d) = .ok () := by
    unfold IncomingFetchStream.checkPrior
    rw [hf.datagram, hf.mode, hf.priority, hm.haveActual]
    cases hactual : s.haveActual with
    | true => rfl
    | false =>
      have hpriority : s.writesPriority o = true := by simp [writesPriority, hactual]
      rw [hpriority]
      cases o.forwardingPref <;> rfl
  have hpriority : (if (s.object o d).has fetchFlagPriority then (s.object o d).publisherPriority
      else r.decPrevPriority) = o.publisherPriority := by
    rw [hf.priority]
    cases hw : s.writesPriority o with
    | true => simp [FetchEncoder.object, hw]
    | false =>
      simp only [writesPriority, Bool.or_eq_false_iff, Bool.not_eq_false', bne_eq_false_iff_eq]
        at hw
      rw [hm.priority hw.1]
      exact hw.2.symm
  have hsubgroup (h : (o.forwardingPref == .datagram) = false) :
      r.readSubgroup (s.object o d) = o.subgroupID := by
    have hmode := hf.mode
    simp only [IncomingFetchStream.readSubgroup, hmode]
    simp [FetchEncoder.object, h, fetchSubgroupIDExplicit, fetchSubgroupIDZero,
      fetchSubgroupIDPrior, fetchSubgroupIDPriorPlusOne]
  have hmarker : o.endOfUnknownRange = false ∧ o.endOfTimedOutRange = false :=
    Bool.or_eq_false_iff.mp hobject
  have hcheck : checkObjectProperties (s.object o d).properties o.loc.group o.loc.object = .ok () :=
    ho.properties
  unfold IncomingFetchStream.resolve
  rw [hrange]
  simp only [hprior, hloc, hpriority, hf.datagram, hcheck, bind, Except.bind, pure, Except.pure,
    ite_self, decodedOf, readerAfter, hmarker]
  cases hdatagram : o.forwardingPref == .datagram with
  | true => rfl
  | false =>
    rw [hsubgroup hdatagram]
    rfl

theorem FetchEncoder.resolve_marker (hm : Mirrors s r) (ho : Serializable maxField o)
    (hmarker : o.isRangeMarker = true) : isEndOfRange (encodeMarker o).serializationFlags = true ∧
    ∃ r', r.resolve (encodeMarker o) = .ok (decodedOf o, r') ∧ Mirrors (s.afterMarker o) r' ∧
      r'.groupOrder = r.groupOrder := by
  rcases ho.marker hmarker with h | h
  all_goals
    rw [h]
    exact ⟨rfl, _, rfl, ⟨rfl, rfl, rfl, hm.haveActual, hm.priority⟩, rfl⟩

theorem readAll_cons {fuel : Nat} {d : DecodedFetchObject} {ds : List DecodedFetchObject}
    {bs : List UInt8} (hparse : Lib.Reads (FetchObject.parse maxField) fo.append fo)
    (hresolve : r.resolve fo = .ok (d, r')) (hrest : r'.readAll maxField fuel bs = .ok ds) :
    r.readAll maxField (fuel + 1) (fo.append ++ bs) = .ok (d :: ds) := by
  have hread : r.readDecoded maxField (fo.append ++ bs) = .ok ((d, r'), bs) := by
    change ((FetchObject.parse maxField).mapError FetchStreamError.object (fo.append ++ bs)).bind _
      = _
    rw [(hparse.mapError _) bs]
    change (r.resolve fo).map (·, bs) = _
    rw [hresolve]
    rfl
  simp only [IncomingFetchStream.readAll, hread, hrest]
  rfl

theorem append_length_pos (hparse : Lib.Reads (FetchObject.parse maxField) fo.append fo) :
    0 < fo.append.length := by
  apply length_pos_iff.mpr
  intro hnil
  have hread := hparse.run_nil
  rw [hnil] at hread
  cases hread

theorem streamFrom_cons (h : expired o = false) : streamFrom expired s (o :: objs) =
      if o.isRangeMarker then
        (streamFrom expired (s.afterMarker o) objs).after (FetchEncoder.encodeMarker o).append 0
      else if o.isStatusMarker then streamFrom expired s objs
      else
        match s.delta o with
        | .error err => { err := some err }
        | .ok d =>
          (streamFrom expired (FetchEncoder.afterObject o d) objs).after
            (s.object o d).append 1 := by
  simp only [streamFrom, h, Bool.and_false, Bool.false_eq_true, if_false]

theorem Serializable.not_statusMarker (h : Serializable maxField o)
    (hmarker : o.isRangeMarker = true) : o.isStatusMarker = false := by
  rcases h.marker hmarker with h | h <;> rw [h] <;> rfl

/-- What is left to write is read back by `r`, with a call for each element and one for the FIN. -/
def ReadsBack (maxField : Nat) (r : IncomingFetchStream) (w : FetchWritten)
    (objs : List CachedObject) : Prop :=
  w.err = none ∧ (objs.filter fun o => !o.isStatusMarker).length ≤ w.bytes.length ∧
    ∀ fuel, (objs.filter fun o => !o.isStatusMarker).length < fuel →
      r.readAll maxField fuel w.bytes =
        .ok ((objs.filter fun o => !o.isStatusMarker).map decodedOf)

theorem ReadsBack.after {n : Nat} {w : FetchWritten} (h : ReadsBack maxField r' w objs)
    (hparse : Lib.Reads (FetchObject.parse maxField) fo.append fo)
    (hresolve : r.resolve fo = .ok (decodedOf o, r')) (ho : o.isStatusMarker = false) :
    ReadsBack maxField r (w.after fo.append n) (o :: objs) := by
  obtain ⟨herr, hlen, hread⟩ := h
  have hpos := append_length_pos hparse
  have hfilter : (o :: objs).filter (fun o => !o.isStatusMarker) =
      o :: objs.filter fun o => !o.isStatusMarker := by
    simp [ho]
  unfold ReadsBack
  rw [hfilter]
  refine ⟨herr, ?_, ?_⟩
  · simp only [FetchWritten.after, length_append, length_cons]
    omega
  · intro fuel hfuel
    rw [length_cons] at hfuel
    cases fuel with
    | zero => omega
    | succ fuel => exact readAll_cons hparse hresolve (hread fuel (by omega))

/-- **The loop**: an encoder and a decoder in step stay in step to the end. -/
theorem readsBack_streamFrom {order : GroupOrder} (hmax : maxField < 2 ^ 64) :
    ∀ {s : FetchEncoder} {r : IncomingFetchStream}, Mirrors s r → r.groupOrder = order →
      (∀ o ∈ objs, Serializable maxField o ∧ expired o = false) →
      objs.Pairwise (fun a b => streamRank order a.loc < streamRank order b.loc) →
      (s.havePrev = true → ∀ o ∈ objs,
        streamRank order ⟨s.prevGroup, s.prevObject⟩ < streamRank order o.loc) →
      ReadsBack maxField r (streamFrom expired s objs) objs := by
  induction objs with
  | nil =>
    intro s r _ _ _ _ _
    refine ⟨rfl, Nat.zero_le _, ?_⟩
    intro fuel hfuel
    cases fuel with
    | zero => cases hfuel
    | succ fuel => rfl
  | cons o objs ih =>
    intro s r hm horder hobjs hsorted hprev
    obtain ⟨ho, hexpired⟩ := hobjs o mem_cons_self
    obtain ⟨hlt, hsorted⟩ := pairwise_cons.mp hsorted
    have hobjs' : ∀ o ∈ objs, Serializable maxField o ∧ expired o = false :=
      fun o ho => hobjs o (mem_cons_of_mem _ ho)
    rw [streamFrom_cons hexpired]
    split_ifs with hmarker hstatus
    · obtain ⟨hrange, r', hresolve, hm', horder'⟩ := FetchEncoder.resolve_marker hm ho hmarker
      refine ReadsBack.after (ih hm' (horder'.trans horder) hobjs' hsorted fun _ => hlt)
        (FetchObject.reads_parse_endOfRange maxField o.groupID o.objectID hrange) hresolve
        (ho.not_statusMarker hmarker)
    · have hrest := ih hm horder hobjs' hsorted
        fun h o' ho' => hprev h o' (mem_cons_of_mem _ ho')
      have hfilter : (o :: objs).filter (fun o => !o.isStatusMarker) =
          objs.filter fun o => !o.isStatusMarker := by
        simp [hstatus]
      unfold ReadsBack
      rw [hfilter]
      exact hrest
    · have hlater (h : s.havePrev = true) := hprev h o mem_cons_self
      obtain ⟨d, hd, hresolves⟩ := FetchEncoder.delta_resolves hm (horder ▸ hlater)
      rw [hd]
      have hobject : o.isRangeMarker = false := Bool.eq_false_iff.mpr hmarker
      have hwritten : o.isStatusMarker = false := Bool.eq_false_iff.mpr hstatus
      exact ReadsBack.after
        (ih (mirrors_readerAfter r o d) horder hobjs' hsorted fun _ => hlt)
        (FetchObject.reads_parse (FetchEncoder.canonical_object ho hwritten) hmax)
        (FetchEncoder.resolve_object hm ho hobject hresolves) hwritten

/-- **A FETCH response is read back as it was written**: the elements that are not status markers,
    in order, by a reader that knows the Group Order. -/
theorem readAll_streamFetchObjects {maxField : Nat} (hmax : maxField < 2 ^ 64)
    {expired : CachedObject → Bool} {order : GroupOrder} {objs : List CachedObject}
    (hobjs : ∀ o ∈ objs, Serializable maxField o) (hexpired : ∀ o ∈ objs, expired o = false)
    (hsorted : objs.Pairwise fun a b => streamCompare a.loc b.loc order = .lt) :
    (streamFetchObjects expired objs).err = none ∧
    IncomingFetchStream.readAll maxField ((streamFetchObjects expired objs).bytes.length + 1)
        { groupOrder := order } (streamFetchObjects expired objs).bytes =
      .ok ((objs.filter fun o => !o.isStatusMarker).map decodedOf) := by
  have hsorted := hsorted.imp fun {a b} h => streamCompare_eq_lt.mp h
  have hstart : Mirrors {} { groupOrder := order } := ⟨rfl, rfl, rfl, rfl, nofun⟩
  obtain ⟨herr, hlen, hread⟩ := readsBack_streamFrom hmax hstart rfl
    (fun o ho => ⟨hobjs o ho, hexpired o ho⟩) hsorted nofun
  exact ⟨herr, hread _ (Nat.lt_succ_of_le hlen)⟩

/-- A response in Descending order with an Object, a status marker, a marker and a datagram. -/
def mixedResponse : List CachedObject :=
  [{ groupID := 5, objectID := 7, subgroupID := 2, publisherPriority := 9, payload := [1, 2] },
   { groupID := 5, objectID := 8, status := objectStatusEndOfGroup },
   unknownRangeMarker ⟨4, 3⟩,
   { groupID := 1, objectID := 0, publisherPriority := 9, forwardingPref := .datagram,
     properties := [0, 0], payload := [3] }]

theorem serializable_mixedResponse : ∀ o ∈ mixedResponse,
    Serializable Wire.maxStreamFieldSize o := by
  intro o ho
  simp only [mixedResponse, mem_cons, not_mem_nil, or_false] at ho
  rcases ho with rfl | rfl | rfl | rfl
  all_goals exact ⟨by decide, by decide +kernel, fun _ => by decide, by decide⟩

theorem readAll_mixedResponse :
    IncomingFetchStream.readAll Wire.maxStreamFieldSize
        ((streamFetchObjects (fun _ => false) mixedResponse).bytes.length + 1)
        { groupOrder := .descending } (streamFetchObjects (fun _ => false) mixedResponse).bytes =
      .ok ((mixedResponse.filter fun o => !o.isStatusMarker).map decodedOf) :=
  (readAll_streamFetchObjects (by decide) serializable_mixedResponse (fun _ _ => rfl)
    (by decide)).2

theorem firstFrom_filter {order : GroupOrder} {l : Location} {p : CachedObject → Bool}
    (h : firstFrom order l objs = some o) (hp : p o = true) :
    firstFrom order l (objs.filter p) = some o := by
  obtain ⟨hfrom, xs, ys, rfl, hxs⟩ := find?_eq_some_iff_append.mp h
  rw [filter_append, filter_cons_of_pos hp]
  exact find?_eq_some_iff_append.mpr
    ⟨hfrom, _, _, rfl, fun x hx => hxs x (mem_filter.mp hx).1⟩

/-- The reader of `bytes` finds the Objects, and as the first element at or after a Location of an
    unknown (timed-out) range a marker of that kind. -/
def Answers (maxField : Nat) (objs : List CachedObject) (unknown timedOut : List LocRange)
    (order : GroupOrder) (bytes : List UInt8) : Prop :=
  ∃ elems, IncomingFetchStream.readAll maxField (bytes.length + 1) { groupOrder := order } bytes =
      .ok (elems.map decodedOf) ∧
    (elems.filter fun e => !e.isRangeMarker).Perm (objs.filter fun o => !o.isStatusMarker) ∧
    (∀ l, Covers unknown l → ∃ m, firstFrom order l elems = some (unknownRangeMarker m)) ∧
    ∀ l, Covers timedOut l → ∃ m, firstFrom order l elems = some (timedOutRangeMarker m)

/-- **A FETCH response answers the request**, from the Objects and ranges to the reader. -/
theorem answers_streamFetchObjects {unknown timedOut : List LocRange} (hmax : maxField < 2 ^ 64)
    (order : GroupOrder) (h : Placeable objs unknown timedOut)
    (hobjs : ∀ o ∈ objs, o.isRangeMarker = false ∧ Serializable maxField o)
    (hexpired : ∀ e ∈ fetchElements objs unknown timedOut order, expired e = false) :
    Answers maxField objs unknown timedOut order
      (streamFetchObjects expired (fetchElements objs unknown timedOut order)).bytes := by
  have hplain o (ho : o ∈ objs) := (hobjs o ho).1
  have hserial : ∀ e ∈ fetchElements objs unknown timedOut order,
      Serializable maxField e ∧ expired e = false := by
    intro e he
    refine ⟨?_, hexpired e he⟩
    rcases mem_unsorted h (mem_unsorted_of_mem he) with ho | ⟨-, heq⟩ | ⟨-, heq⟩
    · exact (hobjs e ho).2
    · rw [heq]
      exact ⟨fun _ => .inl rfl, rfl, fun _ => Nat.zero_le _, Nat.zero_le _⟩
    · rw [heq]
      exact ⟨fun _ => .inr rfl, rfl, fun _ => Nat.zero_le _, Nat.zero_le _⟩
  obtain ⟨-, hlen, hread⟩ := readsBack_streamFrom hmax (s := {}) (r := { groupOrder := order })
    ⟨rfl, rfl, rfl, rfl, nofun⟩ rfl hserial (fetchElements_pairwise order h) nofun
  refine ⟨_, hread _ (Nat.lt_succ_of_le hlen), ?_, fun l hl => ?_, fun l hl => ?_⟩
  · rw [filter_comm]
    exact (filter_fetchElements hplain).filter _
  · obtain ⟨m, hm⟩ := firstFrom_unknown order h hplain hl
    exact ⟨m, firstFrom_filter hm rfl⟩
  · obtain ⟨m, hm⟩ := firstFrom_timedOut order h hplain hl
    exact ⟨m, firstFrom_filter hm rfl⟩

/-- The Objects of `mixedResponse`, a status marker among them, with an unknown range across Groups
    1 to 4 and a timed-out one in Group 5. -/
theorem answers_mixed :
    let objs := mixedResponse.filter fun o => !o.isRangeMarker
    objs.length = 3 ∧ (objs.any fun o => o.isStatusMarker) = true ∧
    Answers Wire.maxStreamFieldSize objs [⟨⟨1, 4⟩, ⟨4, 2⟩⟩] [⟨⟨5, 1⟩, ⟨5, 3⟩⟩] .descending
      (streamFetchObjects (fun _ => false)
        (fetchElements objs [⟨⟨1, 4⟩, ⟨4, 2⟩⟩] [⟨⟨5, 1⟩, ⟨5, 3⟩⟩] .descending)).bytes := by
  intro objs
  have hplaceable : Placeable objs [⟨⟨1, 4⟩, ⟨4, 2⟩⟩] [⟨⟨5, 1⟩, ⟨5, 3⟩⟩] := by
    refine ⟨by decide, by decide, ?_, not_covers_of_lt (by decide)⟩
    simp [LocRange.Proper, Location.rank]
  refine ⟨by decide, by decide, answers_streamFetchObjects (by decide) .descending hplaceable ?_
    fun _ _ => rfl⟩
  intro o ho
  obtain ⟨ho, hplain⟩ := mem_filter.mp ho
  exact ⟨by simpa using hplain, serializable_mixedResponse o ho⟩

/-! ### Properties that do not fit -/

/-- An Object at `{0,0}` with `n` pairs of type 0 and value 0. -/
def zerosObject (n : Nat) : CachedObject := { properties := List.replicate (2 * n) 0 }

theorem serializable_zerosObject (n : Nat) : Serializable (2 * n) (zerosObject n) where
  marker := nofun
  properties := checkObjectProperties_zeros n 0 0
  propertiesFit _ := by simp [zerosObject]
  payloadFits := Nat.zero_le _

theorem readAll_zerosObject {n : Nat} (hbig : maxField < 2 * n) (hmax : 2 * n < 2 ^ 64)
    (fuel : Nat) :
    IncomingFetchStream.readAll maxField (fuel + 1) {}
        (streamFetchObjects (fun _ => false) [zerosObject n]).bytes =
      .error (.object (.wire (.fieldTooLarge (UInt64.ofNat (2 * n))))) := by
  have hlen : (zerosObject n).properties.length = 2 * n := by simp [zerosObject]
  have hne : (!(zerosObject n).properties.isEmpty) = true := by
    rw [Bool.not_eq_true', isEmpty_eq_false_iff]
    intro hnil
    rw [hnil] at hlen
    simp only [length_nil] at hlen
    omega
  let d : LocationDelta := ⟨some 0, some 0, false⟩
  have hbytes : (streamFetchObjects (fun _ => false) [zerosObject n]).bytes =
      (FetchEncoder.object {} (zerosObject n) d).append := append_nil _
  have hparse : FetchObject.parse maxField (FetchEncoder.object {} (zerosObject n) d).append =
      .error (.wire (.fieldTooLarge (UInt64.ofNat (2 * n)))) := by
    have hlen' : (FetchEncoder.object {} (zerosObject n) d).properties.length = 2 * n := hlen
    rw [← hlen']
    apply FetchObject.parse_fieldTooLarge
      (FetchEncoder.canonical_object (serializable_zerosObject n) rfl)
    · rw [(FetchEncoder.flagged {} (zerosObject n) d).properties, hne]
    · rwa [hlen']
    · rwa [hlen']
  have hread : IncomingFetchStream.readDecoded maxField {}
      (FetchEncoder.object {} (zerosObject n) d).append =
        .error (.object (.wire (.fieldTooLarge (UInt64.ofNat (2 * n))))) := by
    change ((FetchObject.parse maxField).mapError FetchStreamError.object _).bind _ = _
    rw [Lib.Parser.mapError, hparse]
    rfl
  rw [hbytes, IncomingFetchStream.readAll, hread]

/-- 16 MiB and two bytes of Properties pass `CheckObjectProperties`, but are more than a stream's
    reader takes for one field. -/
theorem long_properties_not_read :
    checkObjectProperties (zerosObject (2 ^ 23 + 1)).properties 0 0 = .ok () ∧
    IncomingFetchStream.readAll Wire.maxStreamFieldSize
        ((streamFetchObjects (fun _ => false) [zerosObject (2 ^ 23 + 1)]).bytes.length + 1)
        {} (streamFetchObjects (fun _ => false) [zerosObject (2 ^ 23 + 1)]).bytes =
      .error (.object (.wire (.fieldTooLarge 16777218))) :=
  ⟨checkObjectProperties_zeros (2 ^ 23 + 1) 0 0, readAll_zerosObject (by decide) (by decide) _⟩

end MoqGo.Relay
