import MoqGo.Relay.Cache

/-!
# Subgroup streams (`pkg/moqt/message/subgroup.go`, `subgroup_object.go`)

A Subgroup stream is a header and then Objects, whose Object IDs are sent as deltas: the first
is the ID itself, a later one the distance from the ID before, less one (§11.3.1). The reading
half is `IncomingSubgroupStream.ReadObjectHeader` (`pkg/moqt/session/datastream_in.go`), of
which the resolution of Object IDs is kept: the bytes around them are the wire layer's.
-/

namespace MoqGo.Message

/-- `SubgroupIDMode`. -/
inductive SubgroupIDMode
  | implicitZero
  | implicitFirstObject
  | explicit
deriving DecidableEq, Repr, Inhabited

/-- `SubgroupHeader`, less what only the wire and the scheduler read: the Track Alias and
    whether the priority is sent inline. -/
structure SubgroupHeader where
  properties : Bool := false
  subgroupIDMode : SubgroupIDMode := .explicit
  endOfGroup : Bool := false
  replayingSubgroup : Bool := false
  groupID : UInt64 := 0
  subgroupID : UInt64 := 0
  publisherPriority : UInt8 := 0
deriving DecidableEq, Repr, Inhabited

/-- `SubgroupObject`. -/
structure SubgroupObject where
  objectIDDelta : UInt64 := 0
  properties : List UInt8 := []
  payload : List UInt8 := []
  objectStatus : UInt64 := 0
deriving DecidableEq, Repr, Inhabited

namespace SubgroupObject

/-- `IsEndOfGroup`. -/
def isEndOfGroup (o : SubgroupObject) : Bool :=
  o.payload.isEmpty && o.objectStatus == objectStatusEndOfGroup

/-- `IsEndOfTrack`. -/
def isEndOfTrack (o : SubgroupObject) : Bool :=
  o.payload.isEmpty && o.objectStatus == objectStatusEndOfTrack

/-- `IsTerminal`. -/
def isTerminal (o : SubgroupObject) : Bool := o.isEndOfGroup || o.isEndOfTrack

end SubgroupObject

/-- `ErrIDOverflow`: a Group or Object ID outside `0..2⁶⁴-1`. -/
inductive IDError
  | overflow
deriving DecidableEq, Repr, Inhabited

/-- `NextSubgroupObjectID`: `prev + delta + 1`. -/
def nextSubgroupObjectID (prev delta : UInt64) : Except IDError UInt64 :=
  if prev.toNat + delta.toNat + 1 < 2 ^ 64 then .ok (prev + delta + 1) else .error .overflow

/-- `IncomingSubgroupStream`: the Object ID read last, if any. -/
structure IncomingSubgroupStream where
  decPrevObject : UInt64 := 0
  decHavePrev : Bool := false
deriving DecidableEq, Repr, Inhabited

namespace IncomingSubgroupStream

/-- `ReadObjectHeader`'s resolution of the next Object's ID, left in `decPrevObject`. -/
def readObjectHeader (s : IncomingSubgroupStream) (delta : UInt64) :
    Except IDError IncomingSubgroupStream :=
  if s.decHavePrev then
    match nextSubgroupObjectID s.decPrevObject delta with
    | .ok objectID => .ok ⟨objectID, true⟩
    | .error err => .error err
  else .ok ⟨delta, true⟩

/-- The Object IDs of the Objects with these deltas, read one after the other. -/
def readObjectIDs (s : IncomingSubgroupStream) : List UInt64 → Except IDError (List UInt64)
  | [] => .ok []
  | delta :: rest =>
    match s.readObjectHeader delta with
    | .error err => .error err
    | .ok s =>
      match s.readObjectIDs rest with
      | .error err => .error err
      | .ok ids => .ok (s.decPrevObject :: ids)

/-- The stream after the Objects `ids` were read from it. -/
def after (s : IncomingSubgroupStream) (ids : List UInt64) : IncomingSubgroupStream :=
  match ids.getLast? with
  | some id => ⟨id, true⟩
  | none => s

@[simp] theorem after_nil (s : IncomingSubgroupStream) : s.after [] = s := rfl

@[simp] theorem after_concat (s : IncomingSubgroupStream) (ids : List UInt64) (id : UInt64) :
    s.after (ids ++ [id]) = ⟨id, true⟩ := by
  simp [after]

theorem readObjectIDs_concat {s t : IncomingSubgroupStream} {deltas ids : List UInt64}
    {delta : UInt64} (h : s.readObjectIDs deltas = .ok ids)
    (ht : (s.after ids).readObjectHeader delta = .ok t) :
    s.readObjectIDs (deltas ++ [delta]) = .ok (ids ++ [t.decPrevObject]) := by
  induction deltas generalizing s ids with
  | nil =>
    cases h
    rw [after_nil] at ht
    simp [readObjectIDs, ht]
  | cons d deltas ih =>
    simp only [readObjectIDs] at h
    split at h
    · cases h
    · next s' hs' =>
      split at h
      · cases h
      · next ids' hids' =>
        cases h
        have hafter : s'.after ids' = s.after (s'.decPrevObject :: ids') := by
          rcases List.eq_nil_or_concat ids' with rfl | ⟨l, id, rfl⟩
          · simp only [readObjectHeader] at hs'
            split at hs'
            · split at hs' <;> cases hs'
              simp [after]
            · cases hs'
              simp [after]
          · rw [List.concat_eq_append, after_concat, ← List.cons_append, after_concat]
        rw [List.cons_append, readObjectIDs, hs']
        simp [ih hids' (hafter ▸ ht)]

end IncomingSubgroupStream
end MoqGo.Message
