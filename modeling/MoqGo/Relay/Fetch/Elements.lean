import MoqGo.Relay.Fetch.Ranges

/-!
# The elements of a FETCH response (`pkg/relay/fetch_ranges.go`)

A response carries Groups in its Group Order and Object IDs ascending within a Group: the order
of `streamRank`, which in Descending order is not that of Locations. `fetchElements` puts the
Objects in that order and adds a marker at the end of each run of Locations whose status is
unknown or that timed out.

**`fetchElements_pairwise`** is what it needs of its caller: no two Objects at one Location, no
Object in a marked range, and no Location in both an unknown and a timed-out one. Then no
Location carries two elements.

A marker speaks of what follows the element before it, up to the marker. So what a response says
of a Location is said by the first element **at or after** it, and for every Location of a marked
range that has to be a marker of the range's kind. It is, since a run of the range is a stretch of
stream order that lies in the range (`exists_runEnd`), where no other kind of element can stand.
-/

namespace MoqGo.Relay

open Message List UInt64

/-! ## Stream order -/

/-- `streamCompare`. -/
def streamCompare (a b : Location) (order : GroupOrder) : Ordering :=
  if order = .descending ∧ a.group ≠ b.group then compareOfLessAndEq b.group a.group
  else a.compare b

/-- The position of a Location in a response in `order`. -/
def streamRank (order : GroupOrder) (l : Location) : Nat :=
  match order with
  | .ascending => l.rank
  | .descending =>
    (18446744073709551615 - l.group.toNat) * 18446744073709551616 + l.object.toNat

variable {a b l : Location} {order : GroupOrder} {r : LocRange}

theorem streamRank_descending_lt : streamRank .descending a < streamRank .descending b ↔
      b.group.toNat < a.group.toNat ∨ a.group.toNat = b.group.toNat ∧
        a.object.toNat < b.object.toNat := by
  have hag := a.group.toNat_lt
  have hao := a.object.toNat_lt
  have hbg := b.group.toNat_lt
  have hbo := b.object.toNat_lt
  simp only [streamRank]
  omega

theorem streamRank_descending_le : streamRank .descending a ≤ streamRank .descending b ↔
      b.group.toNat < a.group.toNat ∨ a.group.toNat = b.group.toNat ∧
        a.object.toNat ≤ b.object.toNat := by
  rw [← Nat.not_lt, streamRank_descending_lt]
  omega

theorem streamRank_inj : streamRank order a = streamRank order b ↔ a = b := by
  cases order with
  | ascending => exact Location.rank_inj
  | descending =>
    constructor
    · intro h
      have hab := mt streamRank_descending_lt.mpr h.not_lt
      have hba := mt streamRank_descending_lt.mpr h.symm.not_lt
      cases a with
      | mk g o =>
        cases b with
        | mk g' o' =>
          simp only [Location.mk.injEq, ← UInt64.toNat_inj]
          simp only at hab hba
          omega
    · exact fun h => h ▸ rfl

theorem streamCompare_same (h : a.group = b.group) :
    streamCompare a b .descending = compareOfLessAndEq a.object b.object := by
  rw [streamCompare, if_neg (fun hc => hc.2 h), Location.compare, h]
  simp [compareOfLessAndEq, Ordering.then]

theorem streamCompare_across (h : a.group ≠ b.group) :
    streamCompare a b .descending = compareOfLessAndEq b.group a.group := by
  rw [streamCompare, if_pos ⟨rfl, h⟩]

theorem compareOfLessAndEq_ne_gt {x y : UInt64} :
    compareOfLessAndEq x y ≠ .gt ↔ x.toNat ≤ y.toNat := by
  unfold compareOfLessAndEq
  simp only [UInt64.lt_iff_toNat_lt, ← UInt64.toNat_inj]
  split_ifs <;> simp <;> omega

theorem streamCompare_ne_gt :
    streamCompare a b order ≠ .gt ↔ streamRank order a ≤ streamRank order b := by
  cases order with
  | ascending => exact Location.compare_ne_gt
  | descending =>
    rw [← Nat.not_lt, streamRank_descending_lt]
    by_cases hg : a.group = b.group
    · rw [streamCompare_same hg, compareOfLessAndEq_ne_gt, hg]
      omega
    · have hne := mt UInt64.toNat_inj.mp hg
      rw [streamCompare_across hg, compareOfLessAndEq_ne_gt]
      omega

theorem streamCompare_eq_lt :
    streamCompare a b order = .lt ↔ streamRank order a < streamRank order b := by
  cases order with
  | ascending => exact Location.compare_eq_lt
  | descending =>
    rw [streamRank_descending_lt]
    by_cases hg : a.group = b.group
    · rw [streamCompare_same hg, compareOfLessAndEq_eq_lt, lt_iff_toNat_lt, hg]
      omega
    · have hne := mt UInt64.toNat_inj.mp hg
      rw [streamCompare_across hg, compareOfLessAndEq_eq_lt, lt_iff_toNat_lt]
      omega

/-! ## Runs -/

/-- `runEnds`: where each part of `r` that a response in `order` carries without interruption
    ends. -/
def runEnds (r : LocRange) (order : GroupOrder) : List Location :=
  if order ≠ .descending ∨ r.lo.group = r.hi.group then [r.hi]
  else
    [r.hi] ++
      (if 1 < r.hi.group - r.lo.group then [⟨r.lo.group + 1, maxUint64⟩] else []) ++
      [⟨r.lo.group, maxUint64⟩]

theorem LocRange.has_iff : r.Has l ↔
      (r.lo.group.toNat < l.group.toNat ∨ r.lo.group.toNat = l.group.toNat ∧
        r.lo.object.toNat ≤ l.object.toNat) ∧
      (l.group.toNat < r.hi.group.toNat ∨ l.group.toNat = r.hi.group.toNat ∧
        l.object.toNat ≤ r.hi.object.toNat) := by
  have hlo := r.lo.object.toNat_lt
  have hl := l.object.toNat_lt
  have hhi := r.hi.object.toNat_lt
  unfold LocRange.Has Location.rank
  omega

theorem LocRange.Proper.group_lt (h : r.Proper) (hne : r.lo.group ≠ r.hi.group) :
    r.lo.group.toNat < r.hi.group.toNat := by
  have hhi := LocRange.has_iff.mp h.has_hi
  have := mt UInt64.toNat_inj.mp hne
  omega

theorem has_of_mem_runEnds (hr : r.Proper) (h : l ∈ runEnds r order) : r.Has l := by
  unfold runEnds at h
  split_ifs at h with hone hmore
  · cases mem_singleton.mp h
    exact hr.has_hi
  · have hlt := hr.group_lt (not_or.mp hone).2
    have hmore := lt_iff_toNat_lt.mp hmore
    rw [UInt64.toNat_sub_of_le _ _ (UInt64.le_iff_toNat_le.mpr hlt.le)] at hmore
    have hsucc : (r.lo.group + 1).toNat = r.lo.group.toNat + 1 := by
      apply toNat_add_one
      exact lt_iff_toNat_lt.mpr (hlt.trans_le (le_maxUint64 r.hi.group))
    simp only [cons_append, nil_append, mem_cons,
      not_mem_nil, or_false] at h
    rcases h with rfl | rfl | rfl
    · exact hr.has_hi
    · rw [LocRange.has_iff, hsucc]
      simp only [toNat_one] at hmore
      omega
    · exact LocRange.has_iff.mpr ⟨.inr ⟨rfl, le_maxUint64 r.lo.object⟩, .inl hlt⟩
  · have hlt := hr.group_lt (not_or.mp hone).2
    simp only [append_nil, cons_append, nil_append, mem_cons,
      not_mem_nil, or_false] at h
    rcases h with rfl | rfl
    · exact hr.has_hi
    · exact LocRange.has_iff.mpr ⟨.inr ⟨rfl, le_maxUint64 r.lo.object⟩, .inl hlt⟩

/-! ## The elements -/

/-- `unknownRangeMarker`. -/
def unknownRangeMarker (loc : Location) : CachedObject :=
  { groupID := loc.group, objectID := loc.object, endOfUnknownRange := true }

/-- `timedOutRangeMarker`. -/
def timedOutRangeMarker (loc : Location) : CachedObject :=
  { groupID := loc.group, objectID := loc.object, endOfTimedOutRange := true }

/-- Whether `fetchElements` leaves out `e` when `next` follows it: a marker right after one of
    its own kind covers both. -/
def markerAbsorbs (e next : CachedObject) : Bool :=
  e.isRangeMarker && next.isRangeMarker && e.endOfTimedOutRange == next.endOfTimedOutRange

/-- The markers `fetchElements` adds at the ends of the runs of `rs`. -/
def rangeMarkers (marker : Location → CachedObject) (order : GroupOrder) (rs : List LocRange) :
    List CachedObject :=
  rs.flatMap fun r => (runEnds r order).map marker

/-- The elements before their sort. -/
def unsorted (objs : List CachedObject) (unknown timedOut : List LocRange) (order : GroupOrder) :
    List CachedObject :=
  objs ++ rangeMarkers unknownRangeMarker order unknown ++
    rangeMarkers timedOutRangeMarker order timedOut

/-- `fetchElements`. -/
def fetchElements (objs : List CachedObject) (unknown timedOut : List LocRange)
    (order : GroupOrder) : List CachedObject :=
  Lib.absorb markerAbsorbs <| (unsorted objs unknown timedOut order).insertionSort fun a b =>
    streamCompare a.loc b.loc order ≠ .gt

theorem covers_of_mem_rangeMarkers {marker : Location → CachedObject} {rs : List LocRange}
    {e : CachedObject} (hrs : ∀ r ∈ rs, r.Proper) (hmarker : ∀ l, (marker l).loc = l)
    (h : e ∈ rangeMarkers marker order rs) : Covers rs e.loc ∧ ∃ l, e = marker l := by
  obtain ⟨r, hr, he⟩ := mem_flatMap.mp h
  obtain ⟨l, hl, rfl⟩ := mem_map.mp he
  rw [hmarker]
  exact ⟨⟨r, hr, has_of_mem_runEnds (hrs r hr) hl⟩, l, rfl⟩

/-- What `fetchElements` asks of its caller. -/
structure Placeable (objs : List CachedObject) (unknown timedOut : List LocRange) : Prop where
  nodup : (objs.map (·.loc)).Nodup
  unmarked : ∀ o ∈ objs, ¬ Covers unknown o.loc ∧ ¬ Covers timedOut o.loc
  proper : ∀ r ∈ unknown ++ timedOut, r.Proper
  disjoint : ∀ l, Covers unknown l → ¬ Covers timedOut l

theorem fetchElements_pairwise {objs : List CachedObject} {unknown timedOut : List LocRange}
    (order : GroupOrder) (h : Placeable objs unknown timedOut) :
    (fetchElements objs unknown timedOut order).Pairwise fun a b =>
      streamRank order a.loc < streamRank order b.loc := by
  have hunknown {e : CachedObject} (he : e ∈ rangeMarkers unknownRangeMarker order unknown) :=
    covers_of_mem_rangeMarkers (fun r hr => h.proper r (mem_append_left _ hr))
      (fun _ => rfl) he
  have htimedOut {e : CachedObject} (he : e ∈ rangeMarkers timedOutRangeMarker order timedOut) :=
    covers_of_mem_rangeMarkers (fun r hr => h.proper r (mem_append_right _ hr))
      (fun _ => rfl) he
  have hr (a b : CachedObject) : streamCompare a.loc b.loc order ≠ .gt ↔
      streamRank order a.loc ≤ streamRank order b.loc := streamCompare_ne_gt
  apply Lib.sortAbsorb_pairwise (p := markerAbsorbs) (fun e => streamRank order e.loc) hr
  simp only [streamRank_inj]
  -- two elements at one Location are markers of one kind
  refine pairwise_append.mpr ⟨pairwise_append.mpr ⟨?_, ?_, ?_⟩, ?_, ?_⟩
  · exact (pairwise_map.mp h.nodup).imp fun hne heq => absurd heq hne
  · refine pairwise_of_forall_mem_list ?_
    intro a ha b hb _
    obtain ⟨l, rfl⟩ := (hunknown ha).2
    obtain ⟨m, rfl⟩ := (hunknown hb).2
    exact ⟨rfl, rfl⟩
  · intro a ha b hb heq
    exact absurd (heq ▸ (hunknown hb).1) (h.unmarked a ha).1
  · refine pairwise_of_forall_mem_list ?_
    intro a ha b hb _
    obtain ⟨l, rfl⟩ := (htimedOut ha).2
    obtain ⟨m, rfl⟩ := (htimedOut hb).2
    exact ⟨rfl, rfl⟩
  · intro a ha b hb heq
    rcases mem_append.mp ha with ha | ha
    · exact absurd (heq ▸ (htimedOut hb).1) (h.unmarked a ha).2
    · exact absurd (heq ▸ (htimedOut hb).1) (h.disjoint a.loc (hunknown ha).1)

/-! ## What a response says of each Location -/

/-- **A run is a stretch of the response**: from a Location of the range to the end of its run, in
    stream order, everything is in the range. -/
theorem exists_runEnd (order : GroupOrder) (h : r.Has l) :
    ∃ m ∈ runEnds r order, streamRank order l ≤ streamRank order m ∧
      ∀ x, streamRank order l ≤ streamRank order x → streamRank order x ≤ streamRank order m →
        r.Has x := by
  cases order with
  | ascending =>
    refine ⟨r.hi, by simp [runEnds], h.2, fun x hlx hxm => ⟨h.1.trans hlx, hxm⟩⟩
  | descending =>
    have hl := LocRange.has_iff.mp h
    have hmax (x : Location) := le_maxUint64 x.object
    by_cases hone : r.lo.group = r.hi.group
    · refine ⟨r.hi, by simp [runEnds, hone], ?_, fun x hlx hxm => ?_⟩
      · rw [streamRank_descending_le]
        rw [hone] at hl
        omega
      · rw [streamRank_descending_le] at hlx hxm
        rw [LocRange.has_iff]
        omega
    · have hends : runEnds r .descending = [r.hi] ++
          (if 1 < r.hi.group - r.lo.group then [⟨r.lo.group + 1, maxUint64⟩] else []) ++
          [⟨r.lo.group, maxUint64⟩] := if_neg (by simp [hone])
      by_cases hhigh : l.group.toNat = r.hi.group.toNat
      · -- the start of the highest Group
        refine ⟨r.hi, by simp [hends], ?_, fun x hlx hxm => ?_⟩
        · rw [streamRank_descending_le]
          omega
        · rw [streamRank_descending_le] at hlx hxm
          rw [LocRange.has_iff]
          omega
      by_cases hlow : l.group.toNat = r.lo.group.toNat
      · -- the rest of the lowest
        refine ⟨⟨r.lo.group, maxUint64⟩, by simp [hends], ?_, fun x hlx hxm => ?_⟩
        · rw [streamRank_descending_le]
          exact .inr ⟨hlow, hmax l⟩
        · rw [streamRank_descending_le] at hlx hxm
          rw [LocRange.has_iff]
          simp only at hxm
          omega
      · -- the Groups between
        have hsub : 1 < r.hi.group - r.lo.group := by
          rw [UInt64.lt_iff_toNat_lt, UInt64.toNat_sub_of_le _ _
            (le_iff_toNat_le.mpr (by omega)), toNat_one]
          omega
        have hsucc : (r.lo.group + 1).toNat = r.lo.group.toNat + 1 := by
          apply toNat_add_one
          exact (by omega : r.lo.group.toNat < r.hi.group.toNat).trans_le (le_maxUint64 r.hi.group)
        refine ⟨⟨r.lo.group + 1, maxUint64⟩, by simp [hends, hsub], ?_, fun x hlx hxm => ?_⟩
        · rw [streamRank_descending_le, hsucc]
          have hobject : l.object.toNat ≤ (⟨r.lo.group + 1, maxUint64⟩ : Location).object.toNat :=
            hmax l
          omega
        · rw [streamRank_descending_le] at hlx hxm
          rw [hsucc] at hxm
          rw [LocRange.has_iff]
          omega

/-- The first element at or after `l` in stream order. -/
def firstFrom (order : GroupOrder) (l : Location) (elems : List CachedObject) :
    Option CachedObject :=
  elems.find? fun e => streamCompare e.loc l order ≠ .lt

section Marked

variable {objs : List CachedObject} {unknown timedOut : List LocRange} {order : GroupOrder}
  {e : CachedObject} {l : Location}

theorem mem_unsorted (h : Placeable objs unknown timedOut)
    (he : e ∈ unsorted objs unknown timedOut order) :
    e ∈ objs ∨ (Covers unknown e.loc ∧ e = unknownRangeMarker e.loc) ∨
      (Covers timedOut e.loc ∧ e = timedOutRangeMarker e.loc) := by
  rcases mem_append.mp he with he | he
  · rcases mem_append.mp he with he | he
    · exact .inl he
    · obtain ⟨hcov, l, rfl⟩ := covers_of_mem_rangeMarkers
        (fun r hr => h.proper r (mem_append_left _ hr)) (fun _ => rfl) he
      exact .inr (.inl ⟨hcov, rfl⟩)
  · obtain ⟨hcov, l, rfl⟩ := covers_of_mem_rangeMarkers
      (fun r hr => h.proper r (mem_append_right _ hr)) (fun _ => rfl) he
    exact .inr (.inr ⟨hcov, rfl⟩)

theorem mem_unsorted_of_mem (he : e ∈ fetchElements objs unknown timedOut order) :
    e ∈ unsorted objs unknown timedOut order :=
  (perm_insertionSort _ _).mem_iff.mp ((Lib.absorb_sublist _ _).subset he)

theorem marker_of_mem (h : Placeable objs unknown timedOut)
    (hobjs : ∀ o ∈ objs, o.isRangeMarker = false)
    (he : e ∈ fetchElements objs unknown timedOut order) (hmarker : e.isRangeMarker = true) :
    (Covers unknown e.loc ∧ e = unknownRangeMarker e.loc ∧ e.endOfTimedOutRange = false) ∨
      (Covers timedOut e.loc ∧ e = timedOutRangeMarker e.loc ∧ e.endOfTimedOutRange = true) := by
  rcases mem_unsorted h (mem_unsorted_of_mem he) with ho | ⟨hcov, heq⟩ | ⟨hcov, heq⟩
  · rw [hobjs e ho] at hmarker
    cases hmarker
  · exact .inl ⟨hcov, heq, by rw [heq]; rfl⟩
  · exact .inr ⟨hcov, heq, by rw [heq]; rfl⟩

/-- **The first element from a marked Location on** is a marker of the range's kind, where that is
    the only kind of element that stands in the range. -/
theorem firstFrom_fetchElements {r : LocRange} (marker : Location → CachedObject) {timed : Bool}
    (hmarker : ∀ m, (marker m).loc = m)
    (hkind : ∀ m, (marker m).isRangeMarker = true ∧ (marker m).endOfTimedOutRange = timed)
    (hends : ∀ m ∈ runEnds r order, marker m ∈ unsorted objs unknown timedOut order)
    (honly : ∀ e ∈ unsorted objs unknown timedOut order, r.Has e.loc → e = marker e.loc)
    (hl : r.Has l) : ∃ e, firstFrom order l (fetchElements objs unknown timedOut order) = some e ∧
      e.isRangeMarker = true ∧ e.endOfTimedOutRange = timed := by
  obtain ⟨m, hm, hlm, hrun⟩ := exists_runEnd order hl
  have hq (e : CachedObject) :
      streamCompare e.loc l order ≠ .lt ↔ streamRank order l ≤ streamRank order e.loc := by
    rw [ne_eq, streamCompare_eq_lt, Nat.not_lt]
  have hr (a b : CachedObject) : streamCompare a.loc b.loc order ≠ .gt ↔
      streamRank order a.loc ≤ streamRank order b.loc := streamCompare_ne_gt
  have hperm := perm_insertionSort
    (fun a b : CachedObject => streamCompare a.loc b.loc order ≠ .gt)
    (unsorted objs unknown timedOut order)
  have hsorted := Lib.pairwise_sort (fun e : CachedObject => streamRank order e.loc) hr
    (unsorted objs unknown timedOut order)
  -- before the markers are merged, the first element is one of the run
  obtain ⟨e, hfind, hle⟩ := Lib.exists_find_le
    (q := fun e => decide (streamCompare e.loc l order ≠ .lt)) (z := marker m) hsorted
    (hperm.mem_iff.mpr (hends m hm)) (by rw [decide_eq_true_eq, hq, hmarker]; exact hlm)
  rw [hmarker] at hle
  have hfrom : streamRank order l ≤ streamRank order e.loc := by
    have := List.find?_some hfind
    rwa [decide_eq_true_eq, hq] at this
  have he := honly e (hperm.mem_iff.mp (mem_of_find?_eq_some hfind)) (hrun e.loc hfrom hle)
  refine Lib.find_absorb (fun e => e.isRangeMarker = true ∧ e.endOfTimedOutRange = timed) ?_ ?_
    hfind (he ▸ hkind e.loc)
  · intro a b hab ha
    simp only [markerAbsorbs, Bool.and_eq_true, beq_iff_eq] at hab
    exact ⟨hab.1.2, hab.2 ▸ ha.2⟩
  · refine hsorted.imp fun {a b} hab ha => ?_
    rw [decide_eq_true_eq, hq] at ha ⊢
    exact ha.trans hab

section

variable (order : GroupOrder) (h : Placeable objs unknown timedOut)
  (hobjs : ∀ o ∈ objs, o.isRangeMarker = false)
include h hobjs

theorem firstFrom_unknown (hl : Covers unknown l) :
    ∃ m, firstFrom order l (fetchElements objs unknown timedOut order) =
      some (unknownRangeMarker m) := by
  obtain ⟨r, hr, hl⟩ := hl
  obtain ⟨e, hfirst, hmarker, hkind⟩ := firstFrom_fetchElements
    unknownRangeMarker (fun _ => rfl) (fun _ => ⟨rfl, rfl⟩)
    (fun m hm => mem_append_left _ (mem_append_right _
      (mem_flatMap.mpr ⟨r, hr, mem_map_of_mem hm⟩)))
    (fun e he hin => by
      rcases mem_unsorted h he with ho | ⟨-, heq⟩ | ⟨hcov, -⟩
      · exact absurd ⟨r, hr, hin⟩ (h.unmarked e ho).1
      · exact heq
      · exact absurd hcov (h.disjoint e.loc ⟨r, hr, hin⟩)) hl
  rcases marker_of_mem h hobjs (mem_of_find?_eq_some hfirst) hmarker with
    ⟨-, heq, -⟩ | ⟨-, -, htimed⟩
  · exact ⟨e.loc, hfirst.trans (congrArg some heq)⟩
  · rw [hkind] at htimed
    cases htimed

theorem firstFrom_timedOut (hl : Covers timedOut l) :
    ∃ m, firstFrom order l (fetchElements objs unknown timedOut order) =
      some (timedOutRangeMarker m) := by
  obtain ⟨r, hr, hl⟩ := hl
  obtain ⟨e, hfirst, hmarker, hkind⟩ := firstFrom_fetchElements
    timedOutRangeMarker (fun _ => rfl) (fun _ => ⟨rfl, rfl⟩)
    (fun m hm => mem_append_right _
      (mem_flatMap.mpr ⟨r, hr, mem_map_of_mem hm⟩))
    (fun e he hin => by
      rcases mem_unsorted h he with ho | ⟨hcov, -⟩ | ⟨-, heq⟩
      · exact absurd ⟨r, hr, hin⟩ (h.unmarked e ho).2
      · exact absurd ⟨r, hr, hin⟩ (h.disjoint e.loc hcov)
      · exact heq) hl
  rcases marker_of_mem h hobjs (mem_of_find?_eq_some hfirst) hmarker with
    ⟨-, -, htimed⟩ | ⟨-, heq, -⟩
  · rw [hkind] at htimed
    cases htimed
  · exact ⟨e.loc, hfirst.trans (congrArg some heq)⟩

end

theorem filter_fetchElements (hobjs : ∀ o ∈ objs, o.isRangeMarker = false) :
    ((fetchElements objs unknown timedOut order).filter fun e => !e.isRangeMarker).Perm objs := by
  have hkeep : ∀ a b, markerAbsorbs a b = true → (!a.isRangeMarker) = false := by
    intro a b hab
    simp only [markerAbsorbs, Bool.and_eq_true] at hab
    rw [hab.1.1]
    rfl
  have hmarkers (marker : Location → CachedObject) (hmarker : ∀ m, (marker m).isRangeMarker = true)
      (rs : List LocRange) :
      (rangeMarkers marker order rs).filter (fun e => !e.isRangeMarker) = [] := by
    rw [filter_eq_nil_iff]
    intro e he
    obtain ⟨r, -, he⟩ := mem_flatMap.mp he
    obtain ⟨m, -, rfl⟩ := mem_map.mp he
    simp [hmarker m]
  have hself : objs.filter (fun e => !e.isRangeMarker) = objs := by
    rw [filter_eq_self]
    intro o ho
    rw [hobjs o ho]
    rfl
  unfold fetchElements
  rw [Lib.filter_absorb hkeep]
  refine ((perm_insertionSort _ _).filter _).trans (.of_eq ?_)
  rw [unsorted, filter_append, filter_append, hself, hmarkers _ fun _ => rfl,
    hmarkers _ fun _ => rfl, append_nil, append_nil]

end Marked

/-- **`fetchElements` is sound and complete.** Its result holds the Objects it was given and, beside
    them, markers at Locations of the marked ranges; it is strictly in stream order; and the first
    element at or after a Location of an unknown (timed-out) range is an End of Unknown (Timed-Out)
    marker, so that a Location at or after which no marker is first was in no such range. -/
theorem fetchElements_sound_complete {objs : List CachedObject} {unknown timedOut : List LocRange}
    (order : GroupOrder) (h : Placeable objs unknown timedOut)
    (hobjs : ∀ o ∈ objs, o.isRangeMarker = false) :
    ((fetchElements objs unknown timedOut order).filter fun e => !e.isRangeMarker).Perm objs ∧
    (∀ e ∈ fetchElements objs unknown timedOut order, e.isRangeMarker = true →
      (Covers unknown e.loc ∧ e = unknownRangeMarker e.loc) ∨
      (Covers timedOut e.loc ∧ e = timedOutRangeMarker e.loc)) ∧
    ((fetchElements objs unknown timedOut order).Pairwise fun a b =>
      streamCompare a.loc b.loc order = .lt) ∧
    (∀ l, Covers unknown l → ∃ m,
      firstFrom order l (fetchElements objs unknown timedOut order) =
        some (unknownRangeMarker m)) ∧
    (∀ l, Covers timedOut l → ∃ m,
      firstFrom order l (fetchElements objs unknown timedOut order) =
        some (timedOutRangeMarker m)) ∧
    ∀ l, (∀ e, firstFrom order l (fetchElements objs unknown timedOut order) = some e →
      e.isRangeMarker = false) → ¬ Covers unknown l ∧ ¬ Covers timedOut l := by
  refine ⟨filter_fetchElements hobjs, fun e he hmarker => ?_, ?_,
    fun l hl => firstFrom_unknown order h hobjs hl, fun l hl => firstFrom_timedOut order h hobjs hl,
    fun l hnone => ⟨fun hl => ?_, fun hl => ?_⟩⟩
  · rcases marker_of_mem h hobjs he hmarker with ⟨hcov, heq, -⟩ | ⟨hcov, heq, -⟩
    · exact .inl ⟨hcov, heq⟩
    · exact .inr ⟨hcov, heq⟩
  · exact (fetchElements_pairwise order h).imp fun hlt => streamCompare_eq_lt.mpr hlt
  · obtain ⟨m, hfirst⟩ := firstFrom_unknown order h hobjs hl
    cases hnone _ hfirst
  · obtain ⟨m, hfirst⟩ := firstFrom_timedOut order h hobjs hl
    cases hnone _ hfirst

theorem not_covers_of_lt {r r' : LocRange} (h : r.hi.rank < r'.lo.rank) (l : Location)
    (hl : Covers [r] l) : ¬ Covers [r'] l := by
  simp only [Covers, LocRange.Has, mem_singleton, exists_eq_left] at hl ⊢
  omega

/-- Group 3 of an unknown range across Groups 1 to 4, Descending: its run ends in Group 2. -/
theorem fetchElements_sound_complete_between :
    ∃ m, firstFrom .descending ⟨3, 7⟩ (fetchElements
      [{ groupID := 5, objectID := 0 }] [⟨⟨1, 4⟩, ⟨4, 2⟩⟩] [⟨⟨5, 1⟩, ⟨5, 3⟩⟩] .descending) =
        some (unknownRangeMarker m) := by
  have hplaceable : Placeable [{ groupID := 5, objectID := 0 }] [⟨⟨1, 4⟩, ⟨4, 2⟩⟩]
      [⟨⟨5, 1⟩, ⟨5, 3⟩⟩] := by
    refine ⟨by decide, by decide, ?_, not_covers_of_lt (by decide)⟩
    simp [LocRange.Proper, Location.rank]
  exact (fetchElements_sound_complete .descending hplaceable (by decide)).2.2.2.1 ⟨3, 7⟩
    ⟨_, mem_singleton_self _, by decide⟩

end MoqGo.Relay
