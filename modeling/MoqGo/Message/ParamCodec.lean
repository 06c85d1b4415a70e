import MoqGo.Message.RangeFilter

/-!
# Message Parameters on the wire (`pkg/moqt/message/params.go`, `filter.go`)

A list of Parameters is a count, and then each Parameter as the difference of its type to the one
before and its value. How the value is written is not on the wire: the reader knows it from the
type (`kindOf`), the writer from the Parameter. A `LOCATION_FILTER` has no length, so **its value
has to be decoded to find its end**; the reader keeps what it would have written itself.
-/

namespace MoqGo.Message

open Lib Wire List

/-! ## Location Filters -/

/-- The wire value of a `LocationFilterType`. -/
def LocationFilterType.code : LocationFilterType → UInt64
  | .none => 0x00
  | .relativeStart => 0x01
  | .absoluteStart => 0x02
  | .absoluteStartGroupEnd => 0x03
  | .absoluteRange => 0x04
  | .nextObject => 0x05

theorem LocationFilterType.ofVarint_code (t : LocationFilterType) : ofVarint t.code = some t := by
  cases t <;> rfl

theorem LocationFilterType.code_of_ofVarint {v : UInt64} {t : LocationFilterType}
    (h : ofVarint v = some t) : t.code = v := by
  unfold ofVarint at h
  split_ifs at h <;> cases h <;> simp_all [code]

namespace LocationFilter

/-- `LocationFilter.Append`, and so `LocationFilter.Bytes`. -/
def append (f : LocationFilter) : List UInt8 :=
  appendVarint f.type.code ++
    ([f.startGroup, f.startObject, f.endGroupDelta, f.endObject].take
      f.type.fields).flatMap appendVarint

/-- A filter without the fields that its type does not use. -/
def value (f : LocationFilter) : LocationFilter where
  type := f.type
  startGroup := if 0 < f.type.fields then f.startGroup else 0
  startObject := if 1 < f.type.fields then f.startObject else 0
  endGroupDelta := if 2 < f.type.fields then f.endGroupDelta else 0
  endObject := if 3 < f.type.fields then f.endObject else 0

theorem append_eq (f : LocationFilter) :
    f.append = appendVarint f.type.code ++
      ((if decide (0 < f.type.fields) then appendVarint f.startGroup else []) ++
      ((if decide (1 < f.type.fields) then appendVarint f.startObject else []) ++
      ((if decide (2 < f.type.fields) then appendVarint f.endGroupDelta else []) ++
      (if decide (3 < f.type.fields) then appendVarint f.endObject else [])))) := by
  unfold append
  cases f.type <;> simp [LocationFilterType.fields]

theorem append_value (f : LocationFilter) : f.value.append = f.append := by
  rw [append_eq, append_eq]
  unfold value
  cases f.type <;> rfl

theorem reads_field (n i : Nat) (v : UInt64) :
    Reads (field n i) (if decide (i < n) then appendVarint v else [])
      (if i < n then v else 0) := by
  unfold field
  by_cases h : i < n
  · rw [if_pos h, decide_eq_true h]
    exact (reads_parseVarint v).mapError _
  · rw [if_neg h, decide_eq_false h]
    exact reads_pure _

theorem reads_parse (f : LocationFilter) : Reads parse f.append f.value := by
  rw [append_eq]
  refine ((reads_parseVarint _).mapError _).bind ?_
  rw [LocationFilterType.ofVarint_code]
  refine (reads_field _ 0 _).bind ?_
  refine (reads_field _ 1 _).bind ?_
  refine (reads_field _ 2 _).bind ?_
  exact (reads_field _ 3 _).map

theorem yields_field (n i : Nat) :
    Yields (field n i) fun v m =>
      (if i < n then v else 0) = v ∧
        m = (if decide (i < n) then appendVarint v else []).length := by
  refine ((yields_parseVarint.mapError _).field (decide (i < n))).mono fun v m hv => ?_
  by_cases h : i < n
  · rw [if_pos (decide_eq_true h)] at hv ⊢
    exact ⟨if_pos h, hv⟩
  · rw [if_neg (by simpa using h)] at hv
    obtain ⟨rfl, rfl⟩ := hv
    rw [decide_eq_false h]
    exact ⟨if_neg h, rfl⟩

theorem yields_parse : Yields parse fun f n => f.value = f ∧ n = f.append.length := by
  refine (yields_parseVarint.mapError _).bind fun t n hn => ?_
  cases ht : LocationFilterType.ofVarint t with
  | none => exact yields_throw
  | some type =>
    refine (yields_field _ 0).bind fun a _ ha => (yields_field _ 1).bind fun b _ hb =>
      (yields_field _ 2).bind fun c _ hc => (yields_field _ 3).bind fun d _ hd =>
        yields_pure ?_
    obtain ⟨ha, rfl⟩ := ha
    obtain ⟨hb, rfl⟩ := hb
    obtain ⟨hc, rfl⟩ := hc
    obtain ⟨hd, rfl⟩ := hd
    constructor
    · simp only [value, ha, hb, hc, hd]
    · rw [append_eq, hn, ← LocationFilterType.code_of_ofVarint ht]
      simp only [length_append, Nat.add_zero]

end LocationFilter

/-! ## Parameters -/

/-- `ParamKind`. A Parameter without one cannot be built here; the source panics on writing it. -/
inductive ParamKind
  | varint
  | byte
  | bytes
  | location
  | locationFilter
deriving DecidableEq, Repr, Inhabited

/-- `Parameter` whole, with the fields that only some messages read and its value kind. -/
structure WireParameter extends Parameter where
  group : UInt64 := 0
  object : UInt64 := 0
  kind : ParamKind
deriving DecidableEq, Repr, Inhabited

/-- `paramKinds`. -/
def paramKinds : List (UInt64 × ParamKind) :=
  [(0x02, .varint), (0x03, .bytes), (0x04, .varint), (0x06, .varint), (0x08, .varint),
    (0x09, .location), (0x0A, .varint), (0x10, .byte), (0x20, .byte), (0x21, .locationFilter),
    (0x22, .byte), (0x23, .bytes), (0x25, .bytes), (0x26, .bytes), (0x27, .bytes), (0x28, .bytes),
    (0x29, .bytes), (0x32, .varint), (0x34, .bytes), (0x35, .byte)]

/-- `kindOf`. -/
def kindOf (t : UInt64) : Option ParamKind := paramKinds.lookup t

/-- What reading Parameters reports. -/
inductive ParamError
  | wire (err : WireError)
  | typeOverflow
  | unknownParameter (t : UInt64)
  | locationFilter (err : LocationFilterError)
deriving DecidableEq, Repr

/-- `appendParamValue`, what it appends. -/
def appendParamValue (p : WireParameter) : List UInt8 :=
  match p.kind with
  | .varint => appendVarint p.varint
  | .byte => [p.byte]
  | .bytes => appendVarintBytes p.bytes
  | .location => appendVarint p.group ++ appendVarint p.object
  | .locationFilter => p.bytes

/-- `parseParamValue`: a Parameter of type `t`. -/
def parseParamValue (t : UInt64) : Parser UInt8 ParamError WireParameter :=
  match kindOf t with
  | none => throw (.unknownParameter t)
  | some .varint => do
    let v ← parseVarint.mapError ParamError.wire
    return { type := t, varint := v, kind := .varint }
  | some .byte => do
    let v ← Reader.uint8.mapError ParamError.wire
    return { type := t, byte := v, kind := .byte }
  | some .bytes => do
    let v ← Reader.varintBytes.mapError ParamError.wire
    return { type := t, bytes := v, kind := .bytes }
  | some .location => do
    let g ← parseVarint.mapError ParamError.wire
    let o ← parseVarint.mapError ParamError.wire
    return { type := t, group := g, object := o, kind := .location }
  | some .locationFilter => do
    let f ← LocationFilter.parse.mapError ParamError.locationFilter
    return { type := t, bytes := f.append, kind := .locationFilter }

/-- One Parameter, after one of type `prev`. -/
def appendParam (prev : UInt64) (p : WireParameter) : List UInt8 :=
  appendVarint (p.type - prev) ++ appendParamValue p

/-- One round of the loop of `Parameters.parse`. -/
def parseParam (prev : UInt64) : Parser UInt8 ParamError WireParameter := do
  let delta ← parseVarint.mapError ParamError.wire
  if 0xFFFFFFFFFFFFFFFF - prev < delta then throw .typeOverflow
  else parseParamValue (prev + delta)

/-- The stable sort of `Parameters.append`. -/
def sortParams (ps : List WireParameter) : List WireParameter :=
  ps.insertionSort fun a b => a.type ≤ b.type

/-- `Parameters.append`, what it appends. -/
def appendParams (ps : List WireParameter) : List UInt8 :=
  appendVarint (UInt64.ofNat ps.length) ++
    writeSeq appendParam (fun p => p.type) 0 (sortParams ps)

/-- `Parameters.parse`. -/
def parseParams : Parser UInt8 ParamError (List WireParameter) := do
  let count ← parseVarint.mapError ParamError.wire
  readTimes parseParam (fun p => p.type) count.toNat 0

namespace WireParameter

/-- A Parameter without the fields that its kind does not use. -/
def value (p : WireParameter) : WireParameter :=
  match p.kind with
  | .varint => { type := p.type, varint := p.varint, kind := .varint }
  | .byte => { type := p.type, byte := p.byte, kind := .byte }
  | .bytes => { type := p.type, bytes := p.bytes, kind := .bytes }
  | .location => { type := p.type, group := p.group, object := p.object, kind := .location }
  | .locationFilter => { type := p.type, bytes := p.bytes, kind := .locationFilter }

/-- A Parameter of a registered type with the value kind of its type; a `LOCATION_FILTER` value is
    one encoded filter. -/
structure Registered (p : WireParameter) : Prop where
  kind : kindOf p.type = some p.kind
  filter : p.kind = .locationFilter → ∃ f : LocationFilter, p.bytes = f.append

end WireParameter

theorem type_value (p : WireParameter) : p.value.type = p.type := by
  unfold WireParameter.value
  split <;> rfl

theorem appendParam_value (prev : UInt64) (p : WireParameter) :
    appendParam prev p.value = appendParam prev p := by
  unfold appendParam
  unfold appendParamValue WireParameter.value
  cases p.kind <;> rfl

def WireParameter.Sendable (p : WireParameter) : Prop :=
  p.Registered ∧ (p.kind = .bytes → p.bytes.length < 2 ^ 64)

variable {p : WireParameter} {ps : List WireParameter}

theorem reads_parseParamValue (h : p.Sendable) :
    Reads (parseParamValue p.type) (appendParamValue p) p.value := by
  obtain ⟨hreg, hlen⟩ := h
  have hkind := hreg.kind
  unfold parseParamValue appendParamValue WireParameter.value
  cases hk : p.kind with
  | varint =>
    rw [hkind, hk]
    exact ((reads_parseVarint _).mapError _).map
  | byte =>
    rw [hkind, hk]
    exact ((Reader.reads_uint8 _).mapError _).map
  | bytes =>
    rw [hkind, hk]
    exact ((Reader.reads_varintBytes (hlen hk)).mapError _).map
  | location =>
    rw [hkind, hk]
    exact ((reads_parseVarint _).mapError _).bind ((reads_parseVarint _).mapError _).map
  | locationFilter =>
    rw [hkind, hk]
    obtain ⟨f, hf⟩ := hreg.filter hk
    have hread := ((LocationFilter.reads_parse f).mapError ParamError.locationFilter).map
      (f := fun f : LocationFilter =>
        ({ type := p.type, bytes := f.append, kind := .locationFilter } : WireParameter))
    rw [LocationFilter.append_value] at hread
    rw [hf]
    exact hread

theorem yields_parseParamValue (t : UInt64) :
    Yields (parseParamValue t) fun p n =>
      (p.type = t ∧ p.value = p ∧ p.Sendable) ∧ n = (appendParamValue p).length := by
  unfold parseParamValue
  cases ht : kindOf t with
  | none => exact yields_throw
  | some k =>
    cases k with
    | varint =>
      refine (yields_parseVarint.mapError _).bind fun v n hn => yields_pure ?_
      exact ⟨⟨rfl, rfl, ⟨ht, nofun⟩, nofun⟩, hn⟩
    | byte =>
      refine (Reader.yields_uint8.mapError _).bind fun v n hn => yields_pure ?_
      exact ⟨⟨rfl, rfl, ⟨ht, nofun⟩, nofun⟩, hn⟩
    | bytes =>
      refine (Reader.yields_varintBytes.mapError _).bind fun v n hn => yields_pure ?_
      exact ⟨⟨rfl, rfl, ⟨ht, nofun⟩, fun _ => hn.1⟩, hn.2⟩
    | location =>
      refine (yields_parseVarint.mapError _).bind fun g n hn =>
        (yields_parseVarint.mapError _).bind fun o m hm => yields_pure ?_
      refine ⟨⟨rfl, rfl, ⟨ht, nofun⟩, nofun⟩, ?_⟩
      rw [hn, hm]
      simp [appendParamValue]
    | locationFilter =>
      refine (LocationFilter.yields_parse.mapError _).bind fun f n hn => yields_pure ?_
      exact ⟨⟨rfl, rfl, ⟨ht, fun _ => ⟨f, rfl⟩⟩, nofun⟩, hn.2⟩

/-- A Parameter after one of type `prev`. -/
def WireParameter.Fits (prev : UInt64) (p : WireParameter) : Prop :=
  prev ≤ p.type ∧ p.value = p ∧ p.Sendable

theorem reads_parseParam {prev : UInt64} (h : p.Fits prev) :
    Reads (parseParam prev) (appendParam prev p) p := by
  obtain ⟨hle, hvalue, hsend⟩ := h
  have hread := reads_parseParamValue hsend
  rw [hvalue] at hread
  refine ((reads_parseVarint _).mapError _).bind ?_
  rw [if_neg (not_delta_overflow hle), add_sub_of_le]
  exact hread

theorem yields_parseParam (prev : UInt64) :
    Yields (parseParam prev) fun p n => p.Fits prev ∧ n = (appendParam prev p).length := by
  refine (yields_parseVarint.mapError _).bind fun delta n hn => ?_
  split_ifs with hover
  · exact yields_throw
  · obtain ⟨hle, hsub⟩ := delta_of_not_overflow hover
    refine (yields_parseParamValue _).mono fun p m hp => ?_
    obtain ⟨⟨htype, hvalue, hsend⟩, rfl⟩ := hp
    rw [← htype] at hle hsub
    refine ⟨⟨hle, hvalue, hsend⟩, ?_⟩
    rw [appendParam, length_append, hsub, hn]

def paramsValue (ps : List WireParameter) : List WireParameter :=
  (sortParams ps).map WireParameter.value

theorem writeSeq_paramsValue (ps : List WireParameter) :
    writeSeq appendParam (fun p => p.type) 0 (paramsValue ps) =
      writeSeq appendParam (fun p => p.type) 0 (sortParams ps) :=
  writeSeq_map type_value appendParam_value

theorem length_sortParams (ps : List WireParameter) : (sortParams ps).length = ps.length :=
  length_insertionSort _ _

theorem mem_sortParams : p ∈ sortParams ps ↔ p ∈ ps :=
  (perm_insertionSort _ ps).mem_iff

theorem bytes_le_appendParams (hp : p ∈ ps) (hk : p.kind = .bytes) :
    p.bytes.length ≤ (appendParams ps).length := by
  obtain ⟨prev, hprev⟩ : ∃ prev, (appendParam prev p).length ≤
      (writeSeq appendParam (·.type) 0 (sortParams ps)).length :=
    exists_write_le (mem_sortParams.mpr hp)
  have hvalue : appendParamValue p = appendVarintBytes p.bytes := by
    rw [appendParamValue, hk]
  have hbytes := length_le_appendVarintBytes p.bytes
  rw [appendParam, length_append, hvalue] at hprev
  rw [appendParams, length_append]
  omega

theorem length_le_appendParams (ps : List WireParameter) :
    ps.length ≤ (appendParams ps).length := by
  have hpos (prev : UInt64) (p : WireParameter) : 0 < (appendParam prev p).length := by
    rw [appendParam, length_append, length_appendVarint]
    exact Nat.add_pos_left (varintLen_pos _) _
  have hlen : (sortParams ps).length ≤
      (writeSeq appendParam (·.type) 0 (sortParams ps)).length :=
    length_le_writeSeq hpos
  rw [length_sortParams] at hlen
  rw [appendParams, length_append]
  omega

theorem value_value (p : WireParameter) : p.value.value = p.value := by
  unfold WireParameter.value
  cases p.kind <;> rfl

theorem kind_value (p : WireParameter) : p.value.kind = p.kind := by
  unfold WireParameter.value
  cases p.kind <;> rfl

theorem bytes_value (h : p.kind = .bytes ∨ p.kind = .locationFilter) : p.value.bytes = p.bytes := by
  unfold WireParameter.value
  rcases h with h | h <;> rw [h]

theorem WireParameter.Sendable.value (h : p.Sendable) : p.value.Sendable := by
  obtain ⟨hreg, hlen⟩ := h
  refine ⟨⟨?_, ?_⟩, ?_⟩
  · rw [type_value, kind_value, hreg.kind]
  · rw [kind_value]
    intro hk
    rw [bytes_value (.inr hk)]
    exact hreg.filter hk
  · rw [kind_value]
    intro hk
    rw [bytes_value (.inl hk)]
    exact hlen hk

theorem reads_parseParams (h : ∀ p ∈ ps, p.Registered) (hlen : (appendParams ps).length < 2 ^ 64) :
    Reads parseParams (appendParams ps) (paramsValue ps) := by
  have hps := length_le_appendParams ps
  have hcount : (UInt64.ofNat ps.length).toNat = (paramsValue ps).length := by
    rw [UInt64.toNat_ofNat_of_lt' (lt_of_le_of_lt hps hlen), paramsValue, length_map,
      length_sortParams]
  have hfits : FitsSeq WireParameter.Fits (fun p => p.type) 0 (paramsValue ps) := by
    refine fitsSeq_sort type_value fun p hp => ⟨value_value p, ?_⟩
    have hsend : p.Sendable :=
      ⟨h p hp, fun hk => lt_of_le_of_lt (bytes_le_appendParams hp hk) hlen⟩
    exact hsend.value
  rw [appendParams, ← writeSeq_paramsValue]
  refine ((reads_parseVarint _).mapError _).bind ?_
  rw [hcount]
  exact reads_readTimes (fun _ _ hp => reads_parseParam hp) hfits

theorem yields_parseParams :
    Yields parseParams fun ps n =>
      ((∀ p ∈ ps, p.Registered) ∧ paramsValue ps = ps) ∧ n = (appendParams ps).length := by
  refine (yields_parseVarint.mapError _).bind fun v n hn => ?_
  refine (yields_readTimes yields_parseParam v.toNat 0).mono fun ps m hps => ?_
  obtain ⟨hfits, hlen, rfl⟩ := hps
  have hvalue : paramsValue ps = ps := sort_of_fitsSeq hfits fun p hp => hp.1
  refine ⟨⟨fun p hp => ((fitsSeq_zero_iff.mp hfits).2 p hp).2.1, hvalue⟩, ?_⟩
  rw [appendParams, length_append, hlen, UInt64.ofNat_toNat, hn, ← writeSeq_paramsValue,
    hvalue]

end MoqGo.Message
