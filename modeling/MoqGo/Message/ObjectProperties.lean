import MoqGo.Wire.Fields

/-!
# Object Properties (`pkg/moqt/message/object_properties.go`)

An Object's Properties are a list of key-value pairs in raw form. `walk` goes through them
once, and into Immutable Properties, and keeps the few the relay acts on: the Prior Group and
Object ID Gaps. The recursion of the model is on a bound on the pairs left to read; each takes
two bytes at least, so the length of the raw bytes is bound enough.
-/

namespace MoqGo.Message

open Wire

def propertyImmutableProperties : UInt64 := 0x0B
def propertyPriorGroupIDGap : UInt64 := 0x3C
def propertyPriorObjectIDGap : UInt64 := 0x3E

/-- `IsMandatoryTrackProperty`. -/
def isMandatoryTrackProperty (type : UInt64) : Bool :=
  decide (0x4000 ≤ type) && decide (type ≤ 0x7FFF)

/-- What makes Object Properties malformed. -/
inductive PropertiesError
  | unparsable (err : WireError)
  | nestedImmutable
  | repeatedImmutable
  | repeatedGroupGap
  | repeatedObjectGap
  | mandatoryTrackProperty (type : UInt64)
  | groupGapExceeds (gap groupID : UInt64)
  | objectGapExceeds (gap objectID : UInt64)
deriving DecidableEq, Repr

/-- `objectPropertiesCheck`. -/
structure PropertiesCheck where
  immutables : Nat := 0
  groupGaps : Nat := 0
  objectGaps : Nat := 0
  groupGap : UInt64 := 0
  objectGap : UInt64 := 0
deriving DecidableEq, Repr, Inhabited

namespace PropertiesCheck

/-- `objectPropertiesCheck.walk`: `raw` are the bytes left of the list, `prev` the type of the
    pair before. -/
def walk (nested : Bool) : Nat → PropertiesCheck → UInt64 → List UInt8 →
    Except PropertiesError PropertiesCheck
  | _, c, _, [] => .ok c
  | 0, _, _, _ => .error (.unparsable .shortBuffer)
  | fuel + 1, c, prev, raw =>
    match Reader.kvPair prev raw with
    | .error err => .error (.unparsable err)
    | .ok (kv, rest) =>
      if kv.type = propertyImmutableProperties then
        if nested then .error .nestedImmutable
        else if 0 < c.immutables then .error .repeatedImmutable
        else
          match walk true fuel { c with immutables := c.immutables + 1 } 0 kv.byteVal with
          | .error err => .error err
          | .ok c => walk nested fuel c kv.type rest
      else if kv.type = propertyPriorGroupIDGap then
        if 0 < c.groupGaps then .error .repeatedGroupGap
        else walk nested fuel { c with groupGaps := c.groupGaps + 1, groupGap := kv.intVal }
          kv.type rest
      else if kv.type = propertyPriorObjectIDGap then
        if 0 < c.objectGaps then .error .repeatedObjectGap
        else walk nested fuel { c with objectGaps := c.objectGaps + 1, objectGap := kv.intVal }
          kv.type rest
      else if isMandatoryTrackProperty kv.type then .error (.mandatoryTrackProperty kv.type)
      else walk nested fuel c kv.type rest

end PropertiesCheck

/-- `walk` over an Object's whole Properties. -/
def walkProperties (raw : List UInt8) : Except PropertiesError PropertiesCheck :=
  PropertiesCheck.walk false raw.length {} 0 raw

/-- `CheckObjectProperties`: the rules decidable from the Object alone. -/
def checkObjectProperties (raw : List UInt8) (groupID objectID : UInt64) :
    Except PropertiesError Unit :=
  match walkProperties raw with
  | .error err => .error err
  | .ok c =>
    if groupID < c.groupGap then .error (.groupGapExceeds c.groupGap groupID)
    else if objectID < c.objectGap then .error (.objectGapExceeds c.objectGap objectID)
    else .ok ()

/-- `message.PriorGaps`: an Object's Prior Group and Object ID Gaps (§10.8, §10.9). -/
structure PriorGaps where
  group : UInt64 := 0
  object : UInt64 := 0
  hasGroup : Bool := false
  hasObject : Bool := false
deriving DecidableEq, Repr, Inhabited

/-- `ObjectPriorGaps`. -/
def objectPriorGaps (raw : List UInt8) : PriorGaps :=
  match walkProperties raw with
  | .error _ => {}
  | .ok c => ⟨c.groupGap, c.objectGap, c.groupGaps == 1, c.objectGaps == 1⟩

/-- `PriorObjectIDGap`. -/
def priorObjectIDGap (raw : List UInt8) : Option UInt64 :=
  let g := objectPriorGaps raw
  if g.hasObject then some g.object else none

/-- `ImmutableProperties`, with a bound on the pairs left as in `walk`. -/
def immutablePropertiesFrom : Nat → UInt64 → List UInt8 → Option (List UInt8)
  | _, _, [] => none
  | 0, _, _ => none
  | fuel + 1, prev, raw =>
    match Reader.kvPair prev raw with
    | .error _ => none
    | .ok (kv, rest) =>
      if kv.type = propertyImmutableProperties then some kv.byteVal
      else immutablePropertiesFrom fuel kv.type rest

/-- `ImmutableProperties`. -/
def immutableProperties (raw : List UInt8) : Option (List UInt8) :=
  immutablePropertiesFrom raw.length 0 raw

theorem parseVarint_length {raw rest : List UInt8} {v : UInt64}
    (h : parseVarint raw = .ok (v, rest)) : rest.length < raw.length := by
  cases raw with
  | nil => cases h
  | cons first bs =>
    simp only [parseVarint] at h
    split_ifs at h
    cases h
    simp only [List.length_drop, List.length_cons]
    omega

/-! ## Properties of any length -/

theorem kvPair_zero (bs : List UInt8) : Reader.kvPair 0 (0 :: 0 :: bs) = .ok (⟨0, 0, []⟩, bs) := by
  have hreads : Lib.Reads (Reader.kvPair 0) (appendVarint 0 ++ appendVarint 0)
      ⟨0, 0, []⟩ := by
    refine (reads_parseVarint 0).bind ?_
    exact (reads_parseVarint 0).map
  exact hreads bs

theorem walk_zeros {nested : Bool} {c : PropertiesCheck} :
    ∀ {n fuel : Nat}, n ≤ fuel →
      PropertiesCheck.walk nested fuel c 0 (List.replicate (2 * n) 0) = .ok c := by
  intro n
  induction n with
  | zero =>
    intro fuel _
    cases fuel <;> rfl
  | succ n ih =>
    intro fuel h
    cases fuel with
    | zero => cases h
    | succ fuel =>
      have hcons : List.replicate (2 * (n + 1)) (0 : UInt8) = 0 :: 0 :: List.replicate (2 * n) 0 :=
        rfl
      rw [hcons, PropertiesCheck.walk, kvPair_zero]
      · exact ih (Nat.le_of_succ_le_succ h)
      · nofun

theorem checkObjectProperties_zeros (n : Nat) (groupID objectID : UInt64) :
    checkObjectProperties (List.replicate (2 * n) 0) groupID objectID = .ok () := by
  have hwalk : walkProperties (List.replicate (2 * n) 0) = .ok {} :=
    walk_zeros (by rw [List.length_replicate]; omega)
  rw [checkObjectProperties, hwalk]
  simp

end MoqGo.Message
