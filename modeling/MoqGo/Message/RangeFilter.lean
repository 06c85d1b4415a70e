import MoqGo.Message.ObjectProperties
import MoqGo.Message.Params

/-!
# Range Filters (`pkg/moqt/message/rangefilter.go`, `properties.go`)

A request may carry any number of Range Filters, each a list of value ranges for one attribute:
the Subgroup ID, Object ID or Publisher Priority of an Object, a Property of it, or a Property
of the track. A `SetID` says which belong together: all filters of a set must be satisfied, and
one set is enough.

`Selects` is that law for one filter, `SetSelects` for all of them, on the flat list of filters
as sent. The source groups them by `SetID` first (`buildRangeFilterSet`) and asks the groups.
**Grouping loses nothing** (`any_groups_iff`), but the questions the source asks are each about
part of a group: `MatchesObject` about its Object filters, `MatchesTrack` about its track
filters.
-/

namespace MoqGo.Message

open Wire List

/-! ## Searchable properties -/

/-- `ParseTrackProperties`. -/
def parseTrackProperties (raw : List UInt8) : Except WireError (List KVPair) :=
  (Reader.kvPairsRemaining raw).map Prod.fst

/-- The loop of `ExpandImmutable`, over the pairs left. -/
def expandImmutableFrom : List KVPair → List KVPair → Except WireError (List KVPair)
  | out, [] => .ok out
  | out, kv :: kvs =>
    if kv.type ≠ propertyImmutableProperties then expandImmutableFrom out kvs
    else
      match parseTrackProperties kv.byteVal with
      | .error err => .error err
      | .ok nested => expandImmutableFrom (out ++ nested) kvs

/-- `ExpandImmutable`. -/
def expandImmutable (pairs : List KVPair) : Except WireError (List KVPair) :=
  expandImmutableFrom pairs pairs

/-- `parseSearchable`. -/
def parseSearchable (raw : List UInt8) : Except WireError (List KVPair) :=
  match parseTrackProperties raw with
  | .error err => .error err
  | .ok pairs => expandImmutable pairs

def searchable (raw : List UInt8) : List KVPair := (parseSearchable raw).toOption.getD []

/-- `propertyValue`. -/
def propertyValue (pairs : List KVPair) (t : UInt64) : Option UInt64 :=
  (pairs.find? fun kv => kv.type = t).map (·.intVal)

/-! ## One filter -/

/-- The parameter types `IsRangeFilterParam` reports. -/
inductive RangeFilterType
  | subgroup
  | objectID
  | priority
  | objectProperty
  | trackProperty
deriving DecidableEq, Repr, Inhabited

def RangeFilterType.ofParam (t : UInt64) : Option RangeFilterType :=
  if t = 0x25 then some .subgroup
  else if t = 0x26 then some .objectID
  else if t = 0x27 then some .priority
  else if t = 0x28 then some .objectProperty
  else if t = 0x29 then some .trackProperty
  else none

/-- `Range`. `last` is ignored if the range is open. -/
structure ValueRange where
  first : UInt64
  last : UInt64 := 0
  isOpen : Bool := false
deriving DecidableEq, Repr, Inhabited

/-- `RangeFilter`. -/
structure RangeFilter where
  type : RangeFilterType
  setID : UInt8
  propertyType : UInt64 := 0
  ranges : List ValueRange := []
deriving DecidableEq, Repr, Inhabited

/-- What `ErrInvalidFilter` is reported for. -/
inductive InvalidFilter
  | setID (err : WireError)
  | propertyType (err : WireError)
  | startDelta (err : WireError)
  | startOverflow
  | endDelta (err : WireError)
  | endOverflow
  | oddPropertyType (type : RangeFilterType) (t : UInt64)
  | openNotLast
  | priorityExceeds
  | duplicate (type : RangeFilterType) (setID : UInt8) (propertyType : UInt64)
  | notPermitted
  | tooManyRanges (n : Nat) (limit : UInt64)
deriving DecidableEq, Repr

namespace RangeFilter

/-- `RangeFilter.hasPropertyType`. -/
def hasPropertyType (t : RangeFilterType) : Bool := t == .objectProperty || t == .trackProperty

/-- One range more of `ParseRangeFilter`; the state is the end of the range before and the
    ranges so far. A start that nothing follows opens the last range. -/
def rangeStep (s : UInt64 × List ValueRange) :
    Lib.Parser UInt8 InvalidFilter (UInt64 × List ValueRange) := fun raw =>
  match parseVarint raw with
  | .error err => .error (.startDelta err)
  | .ok (sd, raw) =>
    if maxUint64 - s.1 < sd then .error .startOverflow
    else
      let start := s.1 + sd
      match raw with
      | [] => .ok ((s.1, s.2 ++ [{ first := start, isOpen := true }]), [])
      | b :: bs =>
        match parseVarint (b :: bs) with
        | .error err => .error (.endDelta err)
        | .ok (ed, raw) =>
          if maxUint64 - start < ed then .error .endOverflow
          else .ok ((start + ed, s.2 ++ [{ first := start, last := start + ed }]), raw)

theorem consumes_rangeStep (s : UInt64 × List ValueRange) : Lib.Consumes (rangeStep s) := by
  intro raw a rest h
  unfold rangeStep at h
  split at h
  · cases h
  · next sd raw' hsd =>
    have hlen := parseVarint_length hsd
    split_ifs at h
    dsimp only at h
    split at h
    · cases h
      simpa using hlen
    · split at h
      · cases h
      · next ed raw'' hed =>
        have hlen' := parseVarint_length hed
        split_ifs at h
        cases h
        omega

/-- `ParseRangeFilter`. -/
def parse (t : RangeFilterType) (raw : List UInt8) : Except InvalidFilter RangeFilter :=
  match Reader.uint8 raw with
  | .error err => .error (.setID err)
  | .ok (setID, raw) =>
    match (Lib.Parser.field (hasPropertyType t) parseVarint) raw with
    | .error err => .error (.propertyType err)
    | .ok (pt, raw) =>
      match Lib.untilEmpty rangeStep raw.length (0, []) raw with
      | .error err => .error err
      | .ok (_, ranges) => .ok ⟨t, setID, pt, ranges⟩

/-- `RangeFilter.Validate`, over the ranges left. -/
def validateRanges (t : RangeFilterType) : List ValueRange → Except InvalidFilter Unit
  | [] => .ok ()
  | r :: rs =>
    if r.isOpen && !rs.isEmpty then .error .openNotLast
    else if t = .priority ∧ (255 < r.first ∨ r.isOpen = false ∧ 255 < r.last) then
      .error .priorityExceeds
    else validateRanges t rs

/-- `RangeFilter.Validate`. -/
def validate (f : RangeFilter) : Except InvalidFilter Unit :=
  if hasPropertyType f.type ∧ f.propertyType % 2 ≠ 0 then
    .error (.oddPropertyType f.type f.propertyType)
  else validateRanges f.type f.ranges

/-- `RangeFilter.matchValue`. -/
def matchValue (f : RangeFilter) (v : UInt64) : Bool :=
  f.ranges.any fun r => decide (r.first ≤ v) && (r.isOpen || decide (v ≤ r.last))

/-- A missing value matches nothing. -/
def matchProperty (f : RangeFilter) (pairs : List KVPair) : Bool :=
  match propertyValue pairs f.propertyType with
  | some v => f.matchValue v
  | none => false

end RangeFilter

/-- What of an Object the filters look at. -/
structure ObjectAttrs where
  subgroupID : UInt64
  objectID : UInt64
  priority : UInt8
  props : List UInt8 := []
deriving DecidableEq, Repr, Inhabited

namespace RangeFilter

/-- `rangeGroup.matchObject`, for one filter of the group. `pairs` are the Object's. -/
def matchObject (f : RangeFilter) (o : ObjectAttrs) (pairs : List KVPair) : Bool :=
  match f.type with
  | .subgroup => f.matchValue o.subgroupID
  | .objectID => f.matchValue o.objectID
  | .priority => f.matchValue o.priority.toUInt64
  | .objectProperty => f.matchProperty pairs
  | .trackProperty => true

/-- `rangeGroup.matchTrack`, for one filter of the group. `pairs` are the track's. -/
def matchTrack (f : RangeFilter) (pairs : List KVPair) : Bool :=
  match f.type with
  | .trackProperty => f.matchProperty pairs
  | _ => true

end RangeFilter

/-! ## Sets of filters -/

/-- `rangeGroup`: the filters that share a `SetID`. -/
structure RangeGroup where
  setID : UInt8
  filters : List RangeFilter
deriving DecidableEq, Repr, Inhabited

/-- `RangeFilterSet`. -/
structure RangeFilterSet where
  groups : List RangeGroup := []
  totalRanges : Nat := 0
  hasObjectProperty : Bool := false
  hasTrackProperty : Bool := false
deriving DecidableEq, Repr, Inhabited

/-- `rangeGroup.matchObject`. -/
def RangeGroup.matchObject (g : RangeGroup) (o : ObjectAttrs) (pairs : List KVPair) : Bool :=
  g.filters.all fun f => f.matchObject o pairs

/-- `rangeGroup.matchTrack`. -/
def RangeGroup.matchTrack (g : RangeGroup) (pairs : List KVPair) : Bool :=
  g.filters.all fun f => f.matchTrack pairs

/-- `buildRangeFilterSet`'s choice of the group a filter joins. -/
def joinGroup (f : RangeFilter) : List RangeGroup → List RangeGroup
  | [] => [⟨f.setID, [f]⟩]
  | g :: gs =>
    if g.setID = f.setID then { g with filters := g.filters ++ [f] } :: gs
    else g :: joinGroup f gs

namespace RangeFilterSet

/-- One filter more of `buildRangeFilterSet`. -/
def add (s : RangeFilterSet) (f : RangeFilter) : RangeFilterSet where
  groups := joinGroup f s.groups
  totalRanges := s.totalRanges + f.ranges.length
  hasObjectProperty := s.hasObjectProperty || f.type == .objectProperty
  hasTrackProperty := s.hasTrackProperty || f.type == .trackProperty

/-- The loop of `buildRangeFilterSet`, with the filters seen so far. -/
def addAll : RangeFilterSet → List RangeFilter → List RangeFilter →
    Except InvalidFilter RangeFilterSet
  | s, _, [] => .ok s
  | s, seen, f :: fs =>
    if seen.any fun x => x.type = f.type ∧ x.setID = f.setID ∧ x.propertyType = f.propertyType then
      .error (.duplicate f.type f.setID f.propertyType)
    else addAll (s.add f) (seen ++ [f]) fs

/-- `buildRangeFilterSet`; `none` for no filters. -/
def build (filters : List RangeFilter) : Except InvalidFilter (Option RangeFilterSet) :=
  if filters = [] then .ok none else (addAll {} [] filters).map some

/-- `RangeFilterSet.MatchesObjectInSets`, without a track vector: `MatchesObject`. -/
def matchesObject (s : RangeFilterSet) (o : ObjectAttrs) : Bool :=
  if s.groups = [] then true
  else
    let pairs := if s.hasObjectProperty then searchable o.props else []
    s.groups.any fun g => g.matchObject o pairs

/-- `RangeFilterSet.MatchesTrack`. -/
def matchesTrack (s : RangeFilterSet) (trackProps : List UInt8) : Bool :=
  if s.groups = [] then true
  else
    let pairs := if s.hasTrackProperty then searchable trackProps else []
    s.groups.any fun g => g.matchTrack pairs

/-- `RangeFilterSet.Validate`: the limit of the session. -/
def validate (s : RangeFilterSet) (maxFilterRanges : UInt64) : Except InvalidFilter Unit :=
  if maxFilterRanges = 0 then .error .notPermitted
  else if maxFilterRanges.toNat < s.totalRanges then
    .error (.tooManyRanges s.totalRanges maxFilterRanges)
  else .ok ()

def filters (s : RangeFilterSet) : List RangeFilter := s.groups.flatMap (·.filters)

end RangeFilterSet

/-- `parseRangeFilters`: a zero-length parameter is no filter. -/
def parseRangeFilters : Parameters → Except InvalidFilter (List RangeFilter)
  | [] => .ok []
  | p :: ps =>
    match RangeFilterType.ofParam p.type with
    | none => parseRangeFilters ps
    | some t =>
      if p.bytes = [] then parseRangeFilters ps
      else
        match RangeFilter.parse t p.bytes with
        | .error err => .error err
        | .ok f =>
          match f.validate with
          | .error err => .error err
          | .ok () => (parseRangeFilters ps).map (f :: ·)

/-- `RangeFiltersFromParams`. -/
def rangeFiltersFromParams (ps : Parameters) : Except InvalidFilter (Option RangeFilterSet) :=
  match parseRangeFilters ps with
  | .error err => .error err
  | .ok fs => RangeFilterSet.build fs

/-- `RangeFilterSet.Update`: a type the update carries is replaced. -/
def updateRangeFilters (s : Option RangeFilterSet) (ps : Parameters) :
    Except InvalidFilter (Option RangeFilterSet) :=
  match parseRangeFilters ps with
  | .error err => .error err
  | .ok added =>
    let kept := (s.map (·.filters)).getD []
    RangeFilterSet.build
      (kept.filter (fun f => !ps.any fun p => RangeFilterType.ofParam p.type = some f.type) ++
        added)

/-! ## The law -/

/-- The filter is satisfied by an Object of a track. -/
def RangeFilter.Selects (f : RangeFilter) (o : ObjectAttrs) (trackProps : List UInt8) : Prop :=
  ∃ v, (match f.type with
      | .subgroup => some o.subgroupID
      | .objectID => some o.objectID
      | .priority => some o.priority.toUInt64
      | .objectProperty => propertyValue (searchable o.props) f.propertyType
      | .trackProperty => propertyValue (searchable trackProps) f.propertyType) = some v ∧
    ∃ r ∈ f.ranges, r.first ≤ v ∧ (r.isOpen = false → v ≤ r.last)

/-- **The law**: there are no filters, or all filters of some set are satisfied. -/
def SetSelects (filters : List RangeFilter) (o : ObjectAttrs) (trackProps : List UInt8) : Prop :=
  filters = [] ∨ ∃ f ∈ filters, ∀ f' ∈ filters, f'.setID = f.setID → f'.Selects o trackProps

theorem RangeFilter.selects_iff (f : RangeFilter) (o : ObjectAttrs) (trackProps : List UInt8) :
    f.Selects o trackProps ↔ f.matchObject o (searchable o.props) = true ∧
      f.matchTrack (searchable trackProps) = true := by
  have hvalue : ∀ v, f.matchValue v = true ↔
      ∃ r ∈ f.ranges, r.first ≤ v ∧ (r.isOpen = false → v ≤ r.last) := by
    intro v
    simp only [matchValue, any_eq_true, Bool.and_eq_true, decide_eq_true_eq, Bool.or_eq_true,
      ← Bool.not_eq_true, imp_iff_not_or, not_not]
  have hprop : ∀ pairs, f.matchProperty pairs = true ↔
      ∃ v, propertyValue pairs f.propertyType = some v ∧ f.matchValue v = true := by
    intro pairs
    unfold matchProperty
    cases propertyValue pairs f.propertyType with
    | none => simp
    | some v => simp
  simp only [Selects, ← hvalue]
  cases h : f.type <;> simp [matchObject, matchTrack, h, hprop]

instance (f : RangeFilter) (o : ObjectAttrs) (trackProps : List UInt8) :
    Decidable (f.Selects o trackProps) :=
  decidable_of_iff _ (f.selects_iff o trackProps).symm

instance (fs : List RangeFilter) (o : ObjectAttrs) (trackProps : List UInt8) :
    Decidable (SetSelects fs o trackProps) :=
  inferInstanceAs (Decidable (_ ∨ _))

theorem parseRangeFilters_eq_nil {ps : Parameters}
    (h : ps.any (fun p => (RangeFilterType.ofParam p.type).isSome) = false) :
    parseRangeFilters ps = .ok [] := by
  induction ps with
  | nil => rfl
  | cons p ps ih =>
    simp only [any_cons, Bool.or_eq_false_iff, Option.isSome_eq_false_iff,
      Option.isNone_iff_eq_none] at h
    simp only [parseRangeFilters, h.1]
    exact ih h.2

theorem updateRangeFilters_none (ps : Parameters) :
    updateRangeFilters none ps = rangeFiltersFromParams ps := by
  simp [updateRangeFilters, rangeFiltersFromParams]

/-! ## Grouping -/

/-- `gs` are the filters `fs` by `SetID`. -/
structure Grouped (fs : List RangeFilter) (gs : List RangeGroup) : Prop where
  nodup : (gs.map (·.setID)).Nodup
  filters : ∀ g ∈ gs, g.filters = fs.filter (·.setID = g.setID)
  sets : ∀ id, id ∈ gs.map (·.setID) ↔ id ∈ fs.map (·.setID)

theorem setIDs_joinGroup (f : RangeFilter) (gs : List RangeGroup) :
    (joinGroup f gs).map (·.setID) =
      if f.setID ∈ gs.map (·.setID) then gs.map (·.setID) else gs.map (·.setID) ++ [f.setID] := by
  induction gs with
  | nil => rfl
  | cons g gs ih =>
    unfold joinGroup
    split_ifs with hg hmem hmem
    · rfl
    · exact absurd (by simp [hg]) hmem
    · have hmem : f.setID ∈ gs.map (·.setID) := by
        simpa [Ne.symm hg] using hmem
      rw [map_cons, ih, if_pos hmem, map_cons]
    · have hmem : f.setID ∉ gs.map (·.setID) := by
        simpa [Ne.symm hg] using hmem
      rw [map_cons, ih, if_neg hmem, map_cons, cons_append]

variable {gs : List RangeGroup}

theorem mem_joinGroup {f : RangeFilter} {g : RangeGroup} (hnodup : (gs.map (·.setID)).Nodup)
    (h : g ∈ joinGroup f gs) : g ∈ gs ∧ g.setID ≠ f.setID ∨
      (∃ g₀ ∈ gs, g₀.setID = f.setID ∧ g = { g₀ with filters := g₀.filters ++ [f] }) ∨
      (∀ g₀ ∈ gs, g₀.setID ≠ f.setID) ∧ g = ⟨f.setID, [f]⟩ := by
  induction gs with
  | nil => exact .inr (.inr ⟨nofun, mem_singleton.mp h⟩)
  | cons g₁ gs ih =>
    rw [map_cons, nodup_cons] at hnodup
    unfold joinGroup at h
    split_ifs at h with hg
    · rcases mem_cons.mp h with rfl | h
      · exact .inr (.inl ⟨g₁, mem_cons_self, hg, rfl⟩)
      · refine .inl ⟨mem_cons_of_mem g₁ h, ?_⟩
        intro hset
        exact hnodup.1 (mem_map.mpr ⟨g, h, hset.trans hg.symm⟩)
    · rcases mem_cons.mp h with rfl | h
      · exact .inl ⟨mem_cons_self, hg⟩
      · rcases ih hnodup.2 h with ⟨hmem, hne⟩ | ⟨g₀, hmem, hset, heq⟩ | ⟨hnone, heq⟩
        · exact .inl ⟨mem_cons_of_mem g₁ hmem, hne⟩
        · exact .inr (.inl ⟨g₀, mem_cons_of_mem g₁ hmem, hset, heq⟩)
        · refine .inr (.inr ⟨?_, heq⟩)
          intro g₀ hg₀
          rcases mem_cons.mp hg₀ with rfl | hg₀
          · exact hg
          · exact hnone g₀ hg₀

theorem Grouped.joinGroup {fs : List RangeFilter} (h : Grouped fs gs) (f : RangeFilter) :
    Grouped (fs ++ [f]) (joinGroup f gs) := by
  refine ⟨?_, ?_, ?_⟩
  · rw [setIDs_joinGroup]
    split_ifs with hmem
    · exact h.nodup
    · refine h.nodup.append (nodup_singleton _) ?_
      simpa using hmem
  · intro g hg
    rcases mem_joinGroup h.nodup hg with ⟨hmem, hne⟩ | ⟨g₀, hmem, hset, rfl⟩ | ⟨hnone, rfl⟩
    · rw [h.filters g hmem]
      simp [filter_append, Ne.symm hne]
    · simp [h.filters g₀ hmem, filter_append, hset]
    · have hnew : f.setID ∉ fs.map (·.setID) := by
        rw [← h.sets, mem_map]
        exact fun ⟨g, hg, hset⟩ => hnone g hg hset
      have hempty : fs.filter (·.setID = f.setID) = [] := by
        rw [filter_eq_nil_iff]
        intro f' hf' hset
        exact hnew (mem_map.mpr ⟨f', hf', by simpa using hset⟩)
      simp [filter_append, hempty]
  · intro id
    rw [setIDs_joinGroup, map_append, mem_append, ← h.sets, map_singleton, mem_singleton]
    split_ifs with hmem
    · exact ⟨.inl, fun hid => hid.elim (·) (· ▸ hmem)⟩
    · rw [mem_append, mem_singleton]

/-- **Grouping loses nothing**: a group whose filters all pass a test is a set all of whose
    filters have what is tested. -/
theorem Grouped.any_groups_iff {fs : List RangeFilter} (h : Grouped fs gs)
    {p : RangeFilter → Bool} {P : RangeFilter → Prop} (hp : ∀ f ∈ fs, p f = true ↔ P f) :
    (gs.any fun g => g.filters.all p) = true ↔
      ∃ f ∈ fs, ∀ f' ∈ fs, f'.setID = f.setID → P f' := by
  have hgroup : ∀ g ∈ gs, (∀ f' ∈ g.filters, p f' = true) ↔
      ∀ f' ∈ fs, f'.setID = g.setID → P f' := by
    intro g hg
    rw [h.filters g hg]
    simp only [mem_filter, decide_eq_true_eq, and_imp]
    exact forall_congr' fun f' => forall_congr' fun hf' => imp_congr_right fun _ => hp f' hf'
  simp only [any_eq_true, all_eq_true]
  constructor
  · intro ⟨g, hg, hall⟩
    obtain ⟨f, hf, hset⟩ := mem_map.mp ((h.sets g.setID).mp (mem_map_of_mem hg))
    exact ⟨f, hf, hset ▸ (hgroup g hg).mp hall⟩
  · intro ⟨f, hf, hall⟩
    obtain ⟨g, hg, hset⟩ := mem_map.mp ((h.sets f.setID).mpr (mem_map_of_mem hf))
    exact ⟨g, hg, (hgroup g hg).mpr (hset ▸ hall)⟩

theorem flatMap_joinGroup (f : RangeFilter) (gs : List RangeGroup) :
    ((joinGroup f gs).flatMap (·.filters)).Perm (gs.flatMap (·.filters) ++ [f]) := by
  induction gs with
  | nil => exact .refl _
  | cons g gs ih =>
    unfold joinGroup
    split_ifs
    · simp only [flatMap_cons, append_assoc]
      exact perm_append_comm.append_left g.filters
    · simp only [flatMap_cons, append_assoc]
      exact ih.append_left g.filters

namespace RangeFilterSet

/-- The set was built from `fs`, in this order or another. -/
structure Holds (s : RangeFilterSet) (fs : List RangeFilter) : Prop where
  grouped : Grouped fs s.groups
  hasObjectProperty : s.hasObjectProperty = fs.any (·.type == .objectProperty)
  perm : s.filters.Perm fs
  hasTrackProperty : s.hasTrackProperty = fs.any (·.type == .trackProperty)
  totalRanges : s.totalRanges = (fs.map (·.ranges.length)).sum

theorem Holds.nil : Holds {} [] :=
  ⟨⟨nodup_nil, nofun, fun _ => .rfl⟩, rfl, .refl _, rfl, rfl⟩

variable {s : RangeFilterSet} {fs : List RangeFilter}

theorem Holds.add (h : s.Holds fs) (f : RangeFilter) : (s.add f).Holds (fs ++ [f]) where
  grouped := h.grouped.joinGroup f
  hasObjectProperty := by simp [RangeFilterSet.add, h.hasObjectProperty]
  perm := (flatMap_joinGroup f s.groups).trans (h.perm.append_right [f])
  hasTrackProperty := by simp [RangeFilterSet.add, h.hasTrackProperty]
  totalRanges := by simp [RangeFilterSet.add, h.totalRanges]

theorem holds_addAll : ∀ {s s' : RangeFilterSet} {seen : List RangeFilter},
    s.Holds seen → addAll s seen fs = .ok s' → s'.Holds (seen ++ fs) := by
  induction fs with
  | nil =>
    intro s s' seen hs h
    cases h
    simpa using hs
  | cons f fs ih =>
    intro s s' seen hs h
    unfold addAll at h
    split_ifs at h
    simpa using ih (hs.add f) h

/-- What `buildRangeFilterSet` returns: nil for no filters, else a set that holds them. -/
theorem holds_build {s : Option RangeFilterSet} (h : build fs = .ok s) :
    fs = [] ∧ s = none ∨ fs ≠ [] ∧ ∃ s', s = some s' ∧ s'.Holds fs := by
  unfold build at h
  split_ifs at h with hfs
  · cases h
    exact .inl ⟨hfs, rfl⟩
  · cases hadd : addAll {} [] fs with
    | error err =>
      rw [hadd] at h
      cases h
    | ok s' =>
      rw [hadd] at h
      cases h
      exact .inr ⟨hfs, s', rfl, by simpa using holds_addAll .nil hadd⟩

theorem Holds.groups_ne_nil (h : s.Holds fs) (hfs : fs ≠ []) : s.groups ≠ [] := by
  obtain ⟨f, hf⟩ := exists_mem_of_ne_nil fs hfs
  obtain ⟨g, hg, -⟩ := mem_map.mp ((h.grouped.sets f.setID).mpr (mem_map_of_mem hf))
  exact ne_nil_of_mem hg

/-- Without a property filter the Object's Properties are not parsed, nor looked at. -/
theorem Holds.matchObject_pairs (h : s.Holds fs) (o : ObjectAttrs) {f : RangeFilter} (hf : f ∈ fs) :
    f.matchObject o (if s.hasObjectProperty then searchable o.props else []) =
      f.matchObject o (searchable o.props) := by
  split_ifs with hprop
  · rfl
  · have htype : f.type ≠ .objectProperty := by
      intro htype
      rw [h.hasObjectProperty, any_eq_true] at hprop
      exact hprop ⟨f, hf, by simpa using htype⟩
    unfold RangeFilter.matchObject
    cases ht : f.type with
    | objectProperty => exact absurd ht htype
    | subgroup | objectID | priority | trackProperty => rfl

/-- **`MatchesObject`** asks for a set whose Object filters are satisfied. -/
theorem Holds.matchesObject_iff (h : s.Holds fs) (hfs : fs ≠ []) (o : ObjectAttrs) :
    s.matchesObject o = true ↔ ∃ f ∈ fs, ∀ f' ∈ fs, f'.setID = f.setID →
      f'.matchObject o (searchable o.props) = true := by
  rw [matchesObject, if_neg (h.groups_ne_nil hfs)]
  apply h.grouped.any_groups_iff
  intro f hf
  rw [h.matchObject_pairs o hf]

end RangeFilterSet

end MoqGo.Message
