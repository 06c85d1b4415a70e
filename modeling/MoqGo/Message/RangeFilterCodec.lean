import MoqGo.Message.ParamCodec

/-!
# Range Filters on the wire (`pkg/moqt/message/rangefilter.go`)

The ranges of a filter are written as differences: each start from the end before it, each end from
its start, and an open range as a start that nothing follows. Differences of 64-bit numbers wrap
around, so only ranges in ascending order are read back.

**`ParseRangeFilter` returns nothing else** (`parse_ok`), and what it returns is read back if it is
written again. `Append` however asks for a filter that `Validate` accepts, and `Validate` does not
look at the order: a filter with an end before its start, or with a start before the end of the
range before, passes it and is refused by the reader (`unordered_ranges`). `rangeFilter_codec` says
which of the accepted filters are read back.
-/

namespace MoqGo.Message

open Wire List

/-- The range as the reader returns it: `last` is not sent for an open one. -/
def ValueRange.value (r : ValueRange) : ValueRange :=
  if r.isOpen then { first := r.first, isOpen := true } else r

/-- In ascending order, and only the last one open. -/
def Ascending (rs : List ValueRange) : Prop :=
  rs.IsChain (fun r r' => r.isOpen = false ∧ r.last ≤ r'.first) ∧
    ∀ r ∈ rs, r.isOpen = false → r.first ≤ r.last

instance (rs : List ValueRange) : Decidable (Ascending rs) :=
  inferInstanceAs (Decidable (_ ∧ _))

namespace RangeFilter

/-- The loop of `RangeFilter.Append`, over the ranges left. -/
def appendRanges : UInt64 → List ValueRange → List UInt8
  | _, [] => []
  | prevEnd, r :: rs =>
    appendVarint (r.first - prevEnd) ++
      if r.isOpen then [] else appendVarint (r.last - r.first) ++ appendRanges r.last rs

/-- `RangeFilter.Bytes`. -/
def bytes (f : RangeFilter) : List UInt8 :=
  f.setID :: (if hasPropertyType f.type then appendVarint f.propertyType else []) ++
    appendRanges 0 f.ranges

/-- The filter as the reader returns it. -/
def value (f : RangeFilter) : RangeFilter where
  type := f.type
  setID := f.setID
  propertyType := if hasPropertyType f.type then f.propertyType else 0
  ranges := f.ranges.map (·.value)

/-- Ascending ranges, the first of which starts at `prevEnd` or after. -/
inductive Ascends : UInt64 → List ValueRange → Prop
  | nil {prevEnd : UInt64} : Ascends prevEnd []
  | last {prevEnd : UInt64} {r : ValueRange} :
      prevEnd ≤ r.first → r.isOpen = true → Ascends prevEnd [r]
  | cons {prevEnd : UInt64} {r : ValueRange} {rs : List ValueRange} :
      prevEnd ≤ r.first → r.isOpen = false → r.first ≤ r.last → Ascends r.last rs →
        Ascends prevEnd (r :: rs)

theorem ascends_iff (rs : List ValueRange) : ∀ prevEnd,
    Ascends prevEnd rs ↔ (∀ r ∈ rs.head?, prevEnd ≤ r.first) ∧ Ascending rs := by
  induction rs with
  | nil => exact fun _ => ⟨fun _ => ⟨nofun, .nil, nofun⟩, fun _ => .nil⟩
  | cons r rs ih =>
    intro prevEnd
    constructor
    · intro h
      cases h with
      | last hfirst hopen =>
        refine ⟨fun r' hr' => ?_, .singleton r, fun r' hr' hclosed => ?_⟩
        · cases hr'
          exact hfirst
        · rw [mem_singleton.mp hr', hopen] at hclosed
          cases hclosed
      | cons hfirst hclosed hends hrest =>
        obtain ⟨hhead, hchain, hall⟩ := (ih r.last).mp hrest
        refine ⟨fun r' hr' => ?_, ?_, forall_mem_cons.mpr ⟨fun _ => hends, hall⟩⟩
        · cases hr'
          exact hfirst
        · exact hchain.cons fun r' hr' => ⟨hclosed, hhead r' hr'⟩
    · intro ⟨hfirst, hchain, hall⟩
      replace hfirst := hfirst r rfl
      cases hopen : r.isOpen with
      | true =>
        cases rs with
        | nil => exact .last hfirst hopen
        | cons r' rs =>
          rw [isChain_cons_cons, hopen] at hchain
          exact absurd hchain.1.1 (by simp)
      | false =>
        rw [isChain_cons] at hchain
        obtain ⟨hends, hrest⟩ := forall_mem_cons.mp hall
        exact .cons hfirst hopen (hends hopen)
          ((ih r.last).mpr ⟨fun r' hr' => (hchain.1 r' hr').2, hchain.2, hrest⟩)

theorem ascends_zero_iff (rs : List ValueRange) : Ascends 0 rs ↔ Ascending rs := by
  rw [ascends_iff]
  simp

/-! ## One range -/

variable {prevEnd : UInt64} {raw : List UInt8}

theorem rangeStep_open {r : ValueRange} (hfirst : prevEnd ≤ r.first) (hopen : r.isOpen = true)
    (acc : List ValueRange) : rangeStep (prevEnd, acc) (appendVarint (r.first - prevEnd)) =
      .ok ((prevEnd, acc ++ [r.value]), []) := by
  simp only [rangeStep, (reads_parseVarint _).run_nil, maxUint64,
    if_neg (not_delta_overflow hfirst), add_sub_of_le, ValueRange.value, hopen, if_true]

theorem rangeStep_closed {r : ValueRange} (hfirst : prevEnd ≤ r.first) (hclosed : r.isOpen = false)
    (hends : r.first ≤ r.last) (acc : List ValueRange) (rest : List UInt8) :
    rangeStep (prevEnd, acc)
        (appendVarint (r.first - prevEnd) ++ (appendVarint (r.last - r.first) ++ rest)) =
      .ok ((r.last, acc ++ [r.value]), rest) := by
  obtain ⟨b, bs, hb⟩ : ∃ b bs, appendVarint (r.last - r.first) = b :: bs := by
    have hlen := length_appendVarint (r.last - r.first)
    have hpos := varintLen_pos (r.last - r.first)
    exact exists_cons_of_length_pos (by omega)
  have hlast := reads_parseVarint (r.last - r.first) rest
  simp only [rangeStep, reads_parseVarint _ _, maxUint64, if_neg (not_delta_overflow hfirst),
    add_sub_of_le]
  rw [hb, cons_append] at hlast ⊢
  simp only [hlast, if_neg (not_delta_overflow hends), add_sub_of_le, ValueRange.value, hclosed,
    Bool.false_eq_true, if_false]
  rw [← hclosed]

theorem rangeStep_ok {acc : List ValueRange} {rest : List UInt8} {s : UInt64 × List ValueRange}
    (h : rangeStep (prevEnd, acc) raw = .ok (s, rest)) :
    ∃ r, s.2 = acc ++ [r] ∧ prevEnd ≤ r.first ∧ r.value = r ∧
      (r.isOpen = true ∧ rest = [] ∨ r.isOpen = false ∧ r.first ≤ r.last ∧ s.1 = r.last) := by
  unfold rangeStep at h
  split at h
  · cases h
  · next sd raw' hsd =>
    split_ifs at h with hover
    obtain ⟨hfirst, -⟩ := delta_of_not_overflow hover
    dsimp only at h
    split at h
    · cases h
      exact ⟨⟨prevEnd + sd, 0, true⟩, rfl, hfirst, rfl, .inl ⟨rfl, rfl⟩⟩
    · split at h
      · cases h
      · next ed raw'' hed =>
        split_ifs at h with hover'
        obtain ⟨hlast, -⟩ := delta_of_not_overflow hover'
        cases h
        exact ⟨⟨prevEnd + sd, prevEnd + sd + ed, false⟩, rfl, hfirst, rfl, .inr ⟨rfl, hlast, rfl⟩⟩

/-! ## All ranges -/

theorem appendRanges_ne_nil (prevEnd : UInt64) (r : ValueRange) (rs : List ValueRange) :
    appendRanges prevEnd (r :: rs) ≠ [] := by
  have hlen := length_appendVarint (r.first - prevEnd)
  have hpos := varintLen_pos (r.first - prevEnd)
  intro hnil
  rw [appendRanges, append_eq_nil_iff] at hnil
  rw [hnil.1, length_nil] at hlen
  omega

theorem untilEmpty_appendRanges {rs : List ValueRange} (h : Ascends prevEnd rs) :
    ∀ acc, ∃ e, Lib.untilEmpty rangeStep (appendRanges prevEnd rs).length (prevEnd, acc)
      (appendRanges prevEnd rs) = .ok (e, acc ++ rs.map (·.value)) := by
  induction h with
  | @nil prevEnd => exact fun acc => ⟨prevEnd, by simp [appendRanges, Lib.untilEmpty]⟩
  | @last prevEnd r hfirst hopen =>
    intro acc
    refine ⟨prevEnd, ?_⟩
    have happend : appendRanges prevEnd [r] = appendVarint (r.first - prevEnd) := by
      simp [appendRanges, hopen]
    rw [Lib.untilEmpty_cons consumes_rangeStep _ (appendRanges_ne_nil prevEnd r []), happend,
      rangeStep_open hfirst hopen]
    rfl
  | @cons prevEnd r rs hfirst hclosed hends _ ih =>
    intro acc
    obtain ⟨e, he⟩ := ih (acc ++ [r.value])
    refine ⟨e, ?_⟩
    have happend : appendRanges prevEnd (r :: rs) =
        appendVarint (r.first - prevEnd) ++
          (appendVarint (r.last - r.first) ++ appendRanges r.last rs) := by
      simp [appendRanges, hclosed]
    rw [Lib.untilEmpty_cons consumes_rangeStep _ (appendRanges_ne_nil prevEnd r rs), happend,
      rangeStep_closed hfirst hclosed hends]
    simpa using he

theorem ascends_of_untilEmpty : ∀ {prevEnd e : UInt64} {acc ranges : List ValueRange},
      Lib.untilEmpty rangeStep raw.length (prevEnd, acc) raw = .ok (e, ranges) →
        ∃ rs, ranges = acc ++ rs ∧ Ascends prevEnd rs ∧ rs.map (·.value) = rs := by
  -- on the length of the input, as each round uses some of it up
  induction hn : raw.length using Nat.strong_induction_on generalizing raw with
  | _ n ih =>
    intro prevEnd e acc ranges h
    by_cases hraw : raw = []
    · subst hraw hn
      cases h
      exact ⟨[], by simp, .nil, rfl⟩
    · rw [← hn, Lib.untilEmpty_cons consumes_rangeStep _ hraw] at h
      split at h
      · cases h
      · next s rest hstep =>
        have hlen := consumes_rangeStep _ _ _ _ hstep
        obtain ⟨r, hs, hfirst, hvalue, hr⟩ := rangeStep_ok hstep
        obtain ⟨rs, hranges, hasc, hvalues⟩ := ih rest.length (by omega) rfl h
        refine ⟨r :: rs, by rw [hranges, hs]; simp, ?_, by simp [hvalue, hvalues]⟩
        rcases hr with ⟨hopen, hrest⟩ | ⟨hclosed, hends, hlast⟩
        · -- nothing is left, so nothing was added after the open range
          subst hrest
          cases h
          have hnil : rs = [] := by simpa using hranges
          rw [hnil]
          exact .last hfirst hopen
        · exact .cons hfirst hclosed hends (hlast ▸ hasc)

/-! ## The filter -/

theorem parse_bytes {f : RangeFilter} (h : Ascending f.ranges) :
    parse f.type f.bytes = .ok f.value := by
  obtain ⟨e, hranges⟩ := untilEmpty_appendRanges ((ascends_zero_iff f.ranges).mpr h) []
  have hproperty : (Lib.Parser.field (hasPropertyType f.type) parseVarint)
      ((if hasPropertyType f.type then appendVarint f.propertyType else []) ++
        appendRanges 0 f.ranges) = .ok (f.value.propertyType, appendRanges 0 f.ranges) := by
    unfold value
    cases hasPropertyType f.type with
    | true => exact reads_parseVarint f.propertyType (appendRanges 0 f.ranges)
    | false => rfl
  simp only [parse, bytes, cons_append, Reader.uint8, hproperty, hranges, nil_append]
  rfl

theorem parse_ok {t : RangeFilterType} {f : RangeFilter} (h : parse t raw = .ok f) :
    f.type = t ∧ Ascending f.ranges ∧ f.value = f := by
  unfold parse at h
  split at h
  · cases h
  · split at h
    · cases h
    · next pt raw' hpt =>
      split at h
      · cases h
      · next e ranges hranges =>
        cases h
        obtain ⟨rs, hrs, hasc, hvalues⟩ := ascends_of_untilEmpty hranges
        subst hrs
        refine ⟨rfl, (ascends_zero_iff ranges).mp hasc, ?_⟩
        have hproperty : (if hasPropertyType t then pt else 0) = pt := by
          split_ifs with hhas
          · rfl
          · rw [Bool.not_eq_true] at hhas
            rw [hhas] at hpt
            cases hpt
            rfl
        simp only [value, hvalues, hproperty]

theorem matchValue_value (f : RangeFilter) (v : UInt64) :
    f.value.matchValue v = f.matchValue v := by
  have hrange : ∀ r : ValueRange,
      (decide (r.value.first ≤ v) && (r.value.isOpen || decide (v ≤ r.value.last))) =
        (decide (r.first ≤ v) && (r.isOpen || decide (v ≤ r.last))) := by
    intro r
    cases hopen : r.isOpen <;> simp [ValueRange.value, hopen]
  simp only [matchValue, value, any_map]
  exact congrArg f.ranges.any (funext hrange)

/-- What is not sent is zero: the end of an open range, and the Property Type of a filter that has
    none. -/
def Plain (f : RangeFilter) : Prop :=
  (∀ r ∈ f.ranges, r.isOpen = true → r.last = 0) ∧
    (hasPropertyType f.type = false → f.propertyType = 0)

instance (f : RangeFilter) : Decidable f.Plain := inferInstanceAs (Decidable (_ ∧ _))

theorem value_eq_iff (f : RangeFilter) : f.value = f ↔ f.Plain := by
  have hrange : ∀ r : ValueRange, r.value = r ↔ (r.isOpen = true → r.last = 0) := by
    rintro ⟨first, last, _ | _⟩ <;> simp [ValueRange.value, eq_comm]
  have hranges : f.ranges.map (·.value) = f.ranges ↔
      ∀ r ∈ f.ranges, r.isOpen = true → r.last = 0 := by
    have hmap := map_inj_left (f := ValueRange.value) (g := id) (l := f.ranges)
    simpa [hrange] using hmap
  obtain ⟨type, setID, propertyType, ranges⟩ := f
  simp only [value, Plain, RangeFilter.mk.injEq, true_and, hranges]
  cases hasPropertyType type with
  | true => simp
  | false => exact ⟨fun ⟨h, hrs⟩ => ⟨hrs, fun _ => h.symm⟩, fun ⟨hrs, h⟩ => ⟨(h rfl).symm, hrs⟩⟩

/-- **Which filters are read back.** Of a filter that `Validate` accepts, `ParseRangeFilter` returns
    the same `SetID`, Property Type and ranges if and only if the ranges ascend and what is not sent
    is zero; if the ranges ascend, what it returns matches the same values in any case. Whatever
    bytes it accepts, the ranges ascend, and the filter written again is read back. -/
theorem rangeFilter_codec (f : RangeFilter) :
    (f.validate = .ok () →
      ((∃ f', parse f.type f.bytes = .ok f' ∧ f'.setID = f.setID ∧
          f'.propertyType = f.propertyType ∧ f'.ranges = f.ranges) ↔
        Ascending f.ranges ∧ f.Plain) ∧
      (Ascending f.ranges → ∃ f', parse f.type f.bytes = .ok f' ∧ f'.setID = f.setID ∧
        ∀ v, f'.matchValue v = f.matchValue v)) ∧
    ∀ t raw, parse t raw = .ok f → Ascending f.ranges ∧ parse t f.bytes = .ok f := by
  refine ⟨fun _ => ⟨⟨?_, ?_⟩, fun hasc => ?_⟩, fun t raw h => ?_⟩
  · rintro ⟨f', h, hsetID, hproperty, hranges⟩
    obtain ⟨htype, hasc, hvalue⟩ := parse_ok h
    have heq : f' = f := by
      obtain ⟨type, setID, propertyType, ranges⟩ := f
      cases htype
      cases hsetID
      cases hproperty
      cases hranges
      rfl
    rw [heq] at hasc hvalue
    exact ⟨hasc, (value_eq_iff f).mp hvalue⟩
  · rintro ⟨hasc, hplain⟩
    have hparse := parse_bytes hasc
    rw [(value_eq_iff f).mpr hplain] at hparse
    exact ⟨f, hparse, rfl, rfl, rfl⟩
  · exact ⟨f.value, parse_bytes hasc, rfl, f.matchValue_value⟩
  · obtain ⟨htype, hasc, hvalue⟩ := parse_ok h
    have hparse := parse_bytes hasc
    rw [htype, hvalue] at hparse
    exact ⟨hasc, hparse⟩

def threeToFive : RangeFilter :=
  { type := .objectID, setID := 1, ranges := [⟨3, 5, false⟩, ⟨9, 0, true⟩] }

theorem rangeFilter_codec_threeToFive :
    threeToFive.validate = .ok () ∧ Ascending threeToFive.ranges ∧ threeToFive.Plain ∧
      ∃ f', parse .objectID threeToFive.bytes = .ok f' ∧ f'.ranges = threeToFive.ranges := by
  have hvalid : threeToFive.validate = .ok () := by decide +kernel
  have hasc : Ascending threeToFive.ranges ∧ threeToFive.Plain := by decide +kernel
  obtain ⟨f', hparse, -, -, hranges⟩ := ((rangeFilter_codec threeToFive).1 hvalid).1.mpr hasc
  exact ⟨hvalid, hasc.1, hasc.2, f', hparse, hranges⟩

/-- An end before its start, and a start before the end of the range before: `Validate` accepts
    both filters, and what is written for them is refused. -/
theorem unordered_ranges :
    (validate { type := .objectID, setID := 0, ranges := [⟨5, 3, false⟩] } = .ok () ∧
      parse .objectID (bytes { type := .objectID, setID := 0, ranges := [⟨5, 3, false⟩] }) =
        .error .endOverflow) ∧
    validate { type := .objectID, setID := 0, ranges := [⟨5, 9, false⟩, ⟨2, 3, false⟩] } =
      .ok () ∧
    parse .objectID
        (bytes { type := .objectID, setID := 0, ranges := [⟨5, 9, false⟩, ⟨2, 3, false⟩] }) =
      .error .startOverflow := by
  decide +kernel

end RangeFilter

end MoqGo.Message
