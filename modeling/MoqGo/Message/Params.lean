import MoqGo.Wire.Reader
import MoqGo.Message.Location

/-!
# Message parameters and Location Filters (`pkg/moqt/message/params.go`, `filter.go`)

A parameter holds one value, of the kind its type has; the decoder has seen to that. The
Location Filter of a subscription says from which Location on Objects pass, possibly relative
to the Largest Object.
-/

namespace MoqGo.Message

open Wire

/-- `Parameter`. -/
structure Parameter where
  type : UInt64
  varint : UInt64 := 0
  byte : UInt8 := 0
  bytes : List UInt8 := []
deriving DecidableEq, Repr, Inhabited

/-- `Parameters`. -/
abbrev Parameters := List Parameter

/-- `Parameters.Find`. -/
def Parameters.find (ps : Parameters) (t : UInt64) : Option Parameter :=
  ps.find? fun p => p.type = t

def paramForward : UInt64 := 0x10
def paramLocationFilter : UInt64 := 0x21

/-! ## Location Filters -/

/-- `LocationFilterType` (§9.20.9, Table 6). -/
inductive LocationFilterType
  | none
  | relativeStart
  | absoluteStart
  | absoluteStartGroupEnd
  | absoluteRange
  | nextObject
deriving DecidableEq, Repr, Inhabited

/-- The types the draft defines. -/
def LocationFilterType.ofVarint (t : UInt64) : Option LocationFilterType :=
  if t = 0 then some .none
  else if t = 1 then some .relativeStart
  else if t = 2 then some .absoluteStart
  else if t = 3 then some .absoluteStartGroupEnd
  else if t = 4 then some .absoluteRange
  else if t = 5 then some .nextObject
  else Option.none

/-- `LocationFilterType.fields`: how many optional fields follow. -/
def LocationFilterType.fields : LocationFilterType → Nat
  | .none | .nextObject => 0
  | .relativeStart => 1
  | .absoluteStart => 2
  | .absoluteStartGroupEnd => 3
  | .absoluteRange => 4

/-- `LocationFilter`. -/
structure LocationFilter where
  type : LocationFilterType
  startGroup : UInt64 := 0
  startObject : UInt64 := 0
  endGroupDelta : UInt64 := 0
  endObject : UInt64 := 0
deriving DecidableEq, Repr, Inhabited

/-- What makes a `LOCATION_FILTER` value malformed. -/
inductive LocationFilterError
  | type (err : WireError)
  | unknownType (t : UInt64)
  | field (i : Nat) (err : WireError)
  | trailing (n : Nat)
  | endGroupOverflow (start delta : UInt64)
deriving DecidableEq, Repr

namespace LocationFilter

/-- `LocationFilter.HasEnd`. -/
def hasEnd (f : LocationFilter) : Bool :=
  f.type == .absoluteStartGroupEnd || f.type == .absoluteRange

/-- `LocationFilter.Validate`, for a type of the table. -/
def validate (f : LocationFilter) : Except LocationFilterError Unit :=
  if f.hasEnd && maxUint64 - f.endGroupDelta < f.startGroup then
    .error (.endGroupOverflow f.startGroup f.endGroupDelta)
  else .ok ()

/-- Field `i` of a value that has `n` of them. -/
def field (n i : Nat) : Lib.Parser UInt8 LocationFilterError UInt64 :=
  Lib.Parser.field (decide (i < n)) (Lib.Parser.mapError (.field i) parseVarint)

/-- `LocationFilter.Parse`. -/
def parse : Lib.Parser UInt8 LocationFilterError LocationFilter := do
  let t ← Lib.Parser.mapError .type parseVarint
  match LocationFilterType.ofVarint t with
  | none => throw (.unknownType t)
  | some type =>
    let startGroup ← field type.fields 0
    let startObject ← field type.fields 1
    let endGroupDelta ← field type.fields 2
    let endObject ← field type.fields 3
    return ⟨type, startGroup, startObject, endGroupDelta, endObject⟩

/-- `LocationFilter.Start`. -/
def start (f : LocationFilter) (largest : Location) (hasLargest : Bool) : Location :=
  match f.type with
  | .none => {}
  | .relativeStart =>
    if !hasLargest then {}
    else if largest.group < f.startGroup then {}
    else if largest.group = maxUint64 ∧ f.startGroup = 0 then ⟨maxUint64, 0⟩
    else ⟨largest.group + 1 - f.startGroup, 0⟩
  | .nextObject =>
    if !hasLargest then {}
    else if largest.object = maxUint64 then ⟨largest.group, maxUint64⟩
    else ⟨largest.group, largest.object + 1⟩
  | .absoluteStart | .absoluteStartGroupEnd | .absoluteRange => ⟨f.startGroup, f.startObject⟩

/-- `LocationFilter.End`; `none` is open-ended. -/
def end_ (f : LocationFilter) : Option Location :=
  match f.type with
  | .absoluteStartGroupEnd => some ⟨f.startGroup + f.endGroupDelta, maxUint64⟩
  | .absoluteRange => some ⟨f.startGroup + f.endGroupDelta, f.endObject⟩
  | _ => none

/-- `LocationFilter.Matches`. -/
def matchesLocation (f : LocationFilter) (loc largest : Location) (hasLargest : Bool) : Bool :=
  if loc.less (f.start largest hasLargest) then false
  else
    match f.end_ with
    | some e => !e.less loc
    | none => true

/-- Where a Next Object filter starts: right after the Largest Object, or at it if no ID is left
    in its Group. -/
theorem rank_start_nextObject {f : LocationFilter} (hf : f.type = .nextObject)
    (largest : Location) :
    (f.start largest true).rank =
      if largest.object = maxUint64 then largest.rank else largest.rank + 1 := by
  simp only [start, hf, Bool.not_true, Bool.false_eq_true, if_false]
  split_ifs with hmax
  · simp only [Location.rank, hmax]
  · have hsucc : (largest.object + 1).toNat = largest.object.toNat + 1 := by
      have hle := le_maxUint64 largest.object
      have hne : largest.object.toNat ≠ maxUint64.toNat := fun h => hmax (UInt64.toNat_inj.mp h)
      rw [UInt64.toNat_add, UInt64.toNat_one]
      simp only [maxUint64_toNat] at hle hne
      omega
    simp only [Location.rank, hsucc]
    omega

/-- **What passes a Next Object filter**: with no Largest Object everything; else what is past
    it, and the Largest Object itself if no ID is left in its Group. -/
theorem matchesLocation_nextObject {f : LocationFilter} (hf : f.type = .nextObject)
    (loc largest : Location) (hasLargest : Bool) :
    f.matchesLocation loc largest hasLargest = true ↔ hasLargest = false ∨ largest.less loc = true ∨
      loc = largest ∧ largest.object = maxUint64 := by
  have hstart : f.matchesLocation loc largest hasLargest = true ↔
      (f.start largest hasLargest).rank ≤ loc.rank := by
    rw [← Location.not_less_iff, matchesLocation]
    simp [end_, hf]
  rw [hstart]
  cases hasLargest with
  | false =>
    simp only [start, hf, Bool.not_false, if_true, true_or, iff_true]
    exact Nat.zero_le _
  | true =>
    rw [rank_start_nextObject hf, Location.less_iff, ← Location.rank_inj]
    split_ifs with hmax
    · simp only [hmax, and_true, false_or]
      omega
    · simp only [hmax, and_false, or_false, false_or]
      omega

end LocationFilter

/-- `ParseLocationFilter`. -/
def parseLocationFilter (raw : List UInt8) : Except LocationFilterError LocationFilter :=
  match LocationFilter.parse raw with
  | .error err => .error err
  | .ok (f, rest) =>
    if rest ≠ [] then .error (.trailing rest.length)
    else
      match f.validate with
      | .error err => .error err
      | .ok () => .ok f

/-- `LocationFilterFromParam`. -/
def locationFilterFromParam (ps : Parameters) :
    Except LocationFilterError (Option LocationFilter) :=
  match ps.find paramLocationFilter with
  | none => .ok none
  | some p => (parseLocationFilter p.bytes).map some

end MoqGo.Message
