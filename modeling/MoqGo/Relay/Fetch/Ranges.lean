import MoqGo.Relay.Ledger.Basic

/-!
# Ranges of Locations (`pkg/relay/fetch_ranges.go`)

A FETCH response is built from the requested range classified into Objects, known absent
Locations, and the rest, which the relay marks. The functions here compute with lists of ranges;
what a list of ranges stands for is the set of Locations it `Covers`, and each function has one
lemma that says what it does to that set.
-/

namespace MoqGo.Relay

open Message List

/-! ## The Locations before and after one -/

/-- `locSucc`. -/
def locSucc (l : Location) : Option Location :=
  if l.object < maxUint64 then some ⟨l.group, l.object + 1⟩
  else if l.group < maxUint64 then some ⟨l.group + 1, 0⟩
  else none

/-- `fetchPredecessor`. -/
def fetchPredecessor (l : Location) : Option Location :=
  if 0 < l.object then some ⟨l.group, l.object - 1⟩
  else if 0 < l.group then some ⟨l.group - 1, maxUint64⟩
  else none

theorem toNat_sub_one {x : UInt64} (h : 0 < x) : (x - 1).toNat + 1 = x.toNat := by
  have hlt : 0 < x.toNat := UInt64.lt_iff_toNat_lt.mp h
  have hle : (1 : UInt64).toNat ≤ x.toNat := hlt
  rw [UInt64.toNat_sub_of_le _ _ (UInt64.le_iff_toNat_le.mpr hle)]
  exact Nat.sub_add_cancel hle

theorem eq_maxUint64 {x : UInt64} (h : ¬ x < maxUint64) : x = maxUint64 := by
  have hle := UInt64.le_iff_toNat_le.mp (UInt64.not_lt.mp h)
  have hlt := x.toNat_lt
  rw [maxUint64_toNat] at hle
  rw [← UInt64.toNat_inj, maxUint64_toNat]
  omega

variable {l cur lo stop : Location} {rs known a b : List LocRange} {r : LocRange}

theorem locSucc_some {m : Location} (h : locSucc l = some m) : m.rank = l.rank + 1 := by
  unfold locSucc at h
  split_ifs at h with ho hg
  · cases h
    simp only [Location.rank, toNat_add_one ho]
    omega
  · cases h
    simp only [Location.rank, toNat_add_one hg, eq_maxUint64 ho, maxUint64_toNat]
    simp only [UInt64.toNat_zero]
    omega

theorem locSucc_none (h : locSucc l = none) (m : Location) : m.rank ≤ l.rank := by
  unfold locSucc at h
  split_ifs at h with ho hg
  have hm := m.rank_lt
  simp only [Location.rank, eq_maxUint64 ho, eq_maxUint64 hg, maxUint64_toNat] at hm ⊢
  omega

theorem fetchPredecessor_rank (h : 0 < l.rank) :
    ((fetchPredecessor l).getD {}).rank + 1 = l.rank := by
  unfold fetchPredecessor
  split_ifs with ho hg
  · have := toNat_sub_one ho
    simp only [Option.getD_some, Location.rank]
    omega
  · have hg' := toNat_sub_one hg
    have ho' : l.object = 0 := by
      rw [← UInt64.toNat_inj]
      have := mt UInt64.lt_iff_toNat_lt.mpr ho
      simp only [UInt64.toNat_zero] at this ⊢
      omega
    simp only [Option.getD_some, Location.rank, ho', maxUint64_toNat, UInt64.toNat_zero]
    omega
  · have ho' := mt UInt64.lt_iff_toNat_lt.mpr ho
    have hg' := mt UInt64.lt_iff_toNat_lt.mpr hg
    simp only [UInt64.toNat_zero] at ho' hg'
    simp only [Location.rank] at h
    omega

/-! ## Sets of Locations -/

/-- Some range of `rs` has `l`. -/
def Covers (rs : List LocRange) (l : Location) : Prop := ∃ r ∈ rs, r.Has l

instance (rs : List LocRange) (l : Location) : Decidable (Covers rs l) :=
  inferInstanceAs (Decidable (∃ r ∈ rs, r.Has l))

@[simp] theorem not_covers_nil (l : Location) : ¬ Covers [] l := by
  simp [Covers]

@[simp] theorem covers_append {rs' : List LocRange} :
    Covers (rs ++ rs') l ↔ Covers rs l ∨ Covers rs' l := by
  simp [Covers, or_and_right, exists_or]

@[simp] theorem covers_cons : Covers (r :: rs) l ↔ r.Has l ∨ Covers rs l := by
  simp [Covers]

theorem Covers.of_perm {rs' : List LocRange} (h : rs.Perm rs') (l : Location) :
    Covers rs l ↔ Covers rs' l := by
  unfold Covers
  simp only [h.mem_iff]

/-- The range is not empty. -/
def LocRange.Proper (r : LocRange) : Prop := r.lo.rank ≤ r.hi.rank

theorem LocRange.Proper.has_hi (h : r.Proper) : r.Has r.hi := ⟨h, le_rfl⟩

/-! ## What no known range covers -/

/-- What `uncovered`'s loop adds before a known range that starts at `lo`. -/
def before (cur lo : Location) : List LocRange :=
  if cur.less lo then [⟨cur, (fetchPredecessor lo).getD {}⟩] else []

/-- `uncovered`'s loop, at `cur`; `known` is sorted. -/
def uncoveredFrom (stop : Location) : Location → List LocRange → List LocRange
  | cur, [] => [⟨cur, stop⟩]
  | cur, k :: known =>
    if k.hi.less cur then uncoveredFrom stop cur known
    else if stop.less k.lo then [⟨cur, stop⟩]
    else
      match locSucc k.hi with
      | none => before cur k.lo
      | some next =>
        if stop.less next then before cur k.lo
        else before cur k.lo ++ uncoveredFrom stop next known

/-- The sort of `uncovered`. -/
def sortRanges (known : List LocRange) : List LocRange :=
  known.insertionSort fun a b => a.lo.compare b.lo ≠ .gt

/-- `uncovered`: the parts of `[start, stop]` no range in `known` covers. -/
def uncovered (start stop : Location) (known : List LocRange) : List LocRange :=
  uncoveredFrom stop start (sortRanges known)

theorem sortRanges_pairwise (known : List LocRange) :
    (sortRanges known).Pairwise fun a b => a.lo.rank ≤ b.lo.rank := by
  have hr (a b : LocRange) : a.lo.compare b.lo ≠ .gt ↔ a.lo.rank ≤ b.lo.rank :=
    Location.compare_ne_gt
  have : Std.Total fun a b : LocRange => a.lo.compare b.lo ≠ .gt :=
    ⟨fun a b => by rw [hr, hr]; exact le_total _ _⟩
  have : IsTrans LocRange fun a b => a.lo.compare b.lo ≠ .gt :=
    ⟨fun a b c => by rw [hr, hr, hr]; exact le_trans⟩
  exact (pairwise_insertionSort _ known).imp fun {a b} h => (hr a b).mp h

theorem covers_before : Covers (before cur lo) l ↔ cur.rank ≤ l.rank ∧ l.rank < lo.rank := by
  unfold before
  split_ifs with h
  · have hlt := Location.less_iff.mp h
    have hpred := fetchPredecessor_rank (Nat.zero_lt_of_lt hlt)
    simp only [covers_cons, not_covers_nil, or_false, LocRange.Has]
    omega
  · have hle := Location.not_less_iff.mp (Bool.eq_false_iff.mpr h)
    simp only [not_covers_nil, false_iff, not_and]
    omega

/-- **`uncovered`'s loop covers exactly the rest**, even where a known range is empty. -/
theorem covers_uncoveredFrom :
    ∀ {cur : Location}, known.Pairwise (fun a b => a.lo.rank ≤ b.lo.rank) →
      (Covers (uncoveredFrom stop cur known) l ↔
        cur.rank ≤ l.rank ∧ l.rank ≤ stop.rank ∧ ¬ Covers known l) := by
  induction known with
  | nil =>
    simp [uncoveredFrom, LocRange.Has]
  | cons k known ih =>
    intro cur hsorted
    obtain ⟨hk, hsorted⟩ := pairwise_cons.mp hsorted
    -- what follows in `known` starts at `k.lo` or later
    have hlater : Covers known l → k.lo.rank ≤ l.rank := by
      intro h
      obtain ⟨r, hr, hlo, -⟩ := h
      exact (hk r hr).trans hlo
    unfold uncoveredFrom
    split_ifs with hskip hbreak
    · have hlt := Location.less_iff.mp hskip
      rw [ih hsorted, covers_cons]
      grind [LocRange.Has]
    · have hlt := Location.less_iff.mp hbreak
      simp only [covers_cons, not_covers_nil, or_false]
      grind [LocRange.Has]
    · have hcur := Location.not_less_iff.mp (Bool.eq_false_iff.mpr hskip)
      have hlo := Location.not_less_iff.mp (Bool.eq_false_iff.mpr hbreak)
      cases hsucc : locSucc k.hi with
      | none =>
        have hmax := locSucc_none hsucc l
        rw [covers_before, covers_cons]
        grind [LocRange.Has]
      | some next =>
        have hnext := locSucc_some hsucc
        dsimp only
        split_ifs with hlast
        · have hlt := Location.less_iff.mp hlast
          rw [covers_before, covers_cons]
          grind [LocRange.Has]
        · rw [covers_append, covers_before, ih hsorted, covers_cons]
          grind [LocRange.Has]

theorem covers_uncovered {start : Location} : Covers (uncovered start stop known) l ↔
      start.rank ≤ l.rank ∧ l.rank ≤ stop.rank ∧ ¬ Covers known l := by
  have hperm : (sortRanges known).Perm known := perm_insertionSort _ known
  rw [uncovered, covers_uncoveredFrom (sortRanges_pairwise known), Covers.of_perm hperm]

/-- The ranges of `uncovered`'s result: none is empty, all lie between where the loop stands and
    `stop`, and they are in order. -/
structure Stretches (cur stop : Location) (rs : List LocRange) : Prop where
  proper : ∀ r ∈ rs, r.Proper
  within : ∀ r ∈ rs, cur.rank ≤ r.lo.rank ∧ r.hi.rank ≤ stop.rank
  sorted : rs.Pairwise fun a b => a.lo.rank ≤ b.lo.rank ∧ a.hi.rank ≤ b.hi.rank

theorem stretches_singleton (h : cur.rank ≤ stop.rank) : Stretches cur stop [⟨cur, stop⟩] where
  proper := by simp [LocRange.Proper, h]
  within := by simp
  sorted := pairwise_singleton _ _

theorem mem_before (h : r ∈ before cur lo) :
    r.lo = cur ∧ cur.rank < lo.rank ∧ r.hi.rank + 1 = lo.rank := by
  unfold before at h
  split_ifs at h with hlt
  · cases mem_singleton.mp h
    have hlt := Location.less_iff.mp hlt
    exact ⟨rfl, hlt, fetchPredecessor_rank (Nat.zero_lt_of_lt hlt)⟩
  · cases h

theorem stretches_before (h : lo.rank ≤ stop.rank) : Stretches cur stop (before cur lo) where
  proper r hr := by
    obtain ⟨hlo, hlt, hhi⟩ := mem_before hr
    unfold LocRange.Proper
    rw [hlo]
    omega
  within r hr := by
    obtain ⟨hlo, hlt, hhi⟩ := mem_before hr
    rw [hlo]
    omega
  sorted := by
    unfold before
    split_ifs
    · exact pairwise_singleton _ _
    · exact .nil

/-- What the loop emits after `cur` moved on lies after what it emitted before a known range:
    the later known ranges start no earlier. -/
theorem Stretches.before_append {next : Location} (h : Stretches next stop rs)
    (hnext : cur.rank ≤ next.rank) (hlo : lo.rank ≤ stop.rank)
    (hhi : ∀ r ∈ rs, lo.rank ≤ r.hi.rank + 1) : Stretches cur stop (before cur lo ++ rs) where
  proper r hr := by
    rcases mem_append.mp hr with hr | hr
    · exact (stretches_before hlo).proper r hr
    · exact h.proper r hr
  within r hr := by
    rcases mem_append.mp hr with hr | hr
    · exact (stretches_before hlo).within r hr
    · exact ⟨hnext.trans (h.within r hr).1, (h.within r hr).2⟩
  sorted := by
    refine pairwise_append.mpr ⟨(stretches_before hlo).sorted, h.sorted, ?_⟩
    intro a ha b hb
    obtain ⟨halo, -, hahi⟩ := mem_before ha
    have hb' := hhi b hb
    rw [halo]
    exact ⟨hnext.trans (h.within b hb).1, by omega⟩

theorem hi_of_mem_uncoveredFrom : ∀ {cur : Location}, r ∈ uncoveredFrom stop cur known →
      r.hi = stop ∨ ∃ k ∈ known, r.hi.rank + 1 = k.lo.rank := by
  induction known with
  | nil =>
    intro cur h
    cases mem_singleton.mp h
    exact .inl rfl
  | cons k known ih =>
    intro cur h
    have hbefore : r ∈ before cur k.lo → ∃ k' ∈ k :: known, r.hi.rank + 1 = k'.lo.rank :=
      fun h => ⟨k, mem_cons_self, (mem_before h).2.2⟩
    have hrest : ∀ {next : Location}, r ∈ uncoveredFrom stop next known →
        r.hi = stop ∨ ∃ k' ∈ k :: known, r.hi.rank + 1 = k'.lo.rank := by
      intro next h
      obtain h | ⟨k', hk', heq⟩ := ih h
      · exact .inl h
      · exact .inr ⟨k', mem_cons_of_mem k hk', heq⟩
    unfold uncoveredFrom at h
    split_ifs at h
    · exact hrest h
    · cases mem_singleton.mp h
      exact .inl rfl
    · cases hsucc : locSucc k.hi with
      | none =>
        rw [hsucc] at h
        exact .inr (hbefore h)
      | some next =>
        rw [hsucc] at h
        dsimp only at h
        split_ifs at h
        · exact .inr (hbefore h)
        · rcases mem_append.mp h with h | h
          · exact .inr (hbefore h)
          · exact hrest h

theorem stretches_uncoveredFrom : ∀ {cur : Location}, cur.rank ≤ stop.rank →
      known.Pairwise (fun a b => a.lo.rank ≤ b.lo.rank) →
      Stretches cur stop (uncoveredFrom stop cur known) := by
  induction known with
  | nil =>
    intro cur hcur _
    exact stretches_singleton hcur
  | cons k known ih =>
    intro cur hcur hsorted
    obtain ⟨hk, hsorted⟩ := pairwise_cons.mp hsorted
    unfold uncoveredFrom
    split_ifs with hskip hbreak
    · exact ih hcur hsorted
    · exact stretches_singleton hcur
    · have hle := Location.not_less_iff.mp (Bool.eq_false_iff.mpr hskip)
      have hlo := Location.not_less_iff.mp (Bool.eq_false_iff.mpr hbreak)
      cases hsucc : locSucc k.hi with
      | none => exact stretches_before hlo
      | some next =>
        have hnext := locSucc_some hsucc
        dsimp only
        split_ifs with hlast
        · exact stretches_before hlo
        · have hstop := Location.not_less_iff.mp (Bool.eq_false_iff.mpr hlast)
          refine (ih hstop hsorted).before_append (by omega) hlo ?_
          intro r hr
          obtain h | ⟨k', hk', h⟩ := hi_of_mem_uncoveredFrom hr
          · rw [h]
            omega
          · rw [h]
            exact hk k' hk'

theorem stretches_uncovered {start : Location} (h : start.rank ≤ stop.rank)
    (known : List LocRange) :
    Stretches start stop (uncovered start stop known) :=
  stretches_uncoveredFrom h (sortRanges_pairwise known)

theorem apart_uncoveredFrom : ∀ {cur : Location}, cur.rank ≤ stop.rank →
      known.Pairwise (fun a b => a.lo.rank ≤ b.lo.rank) → (∀ k ∈ known, k.Proper) →
      (uncoveredFrom stop cur known).Pairwise fun a b => a.hi.rank + 1 < b.lo.rank := by
  induction known with
  | nil =>
    intro cur _ _ _
    exact pairwise_singleton _ _
  | cons k known ih =>
    intro cur hcur hsorted hproper
    obtain ⟨-, hsorted⟩ := pairwise_cons.mp hsorted
    obtain ⟨hk, hproper⟩ := forall_mem_cons.mp hproper
    have hbefore : (before cur k.lo).Pairwise fun a b => a.hi.rank + 1 < b.lo.rank := by
      unfold before
      split_ifs
      · exact pairwise_singleton _ _
      · exact .nil
    unfold uncoveredFrom
    split_ifs with hskip hbreak
    · exact ih hcur hsorted hproper
    · exact pairwise_singleton _ _
    · cases hsucc : locSucc k.hi with
      | none => exact hbefore
      | some next =>
        have hnext := locSucc_some hsucc
        dsimp only
        split_ifs with hlast
        · exact hbefore
        · have hstop := Location.not_less_iff.mp (Bool.eq_false_iff.mpr hlast)
          refine pairwise_append.mpr ⟨hbefore, ih hstop hsorted hproper, ?_⟩
          intro a ha b hb
          have hahi := (mem_before ha).2.2
          have hblo := ((stretches_uncoveredFrom hstop hsorted).within b hb).1
          unfold LocRange.Proper at hk
          omega

/-- **`uncovered` computes the complement**: ranges in ascending order that neither overlap nor
    touch, and that cover what no known range does. -/
theorem uncovered_complement {start stop : Location} (h : start.rank ≤ stop.rank)
    {known : List LocRange} (hknown : ∀ k ∈ known, k.Proper) :
    (∀ r ∈ uncovered start stop known, r.Proper) ∧
      (uncovered start stop known).Pairwise (fun a b => a.hi.rank + 1 < b.lo.rank) ∧
      ∀ l, Covers (uncovered start stop known) l ↔
        LocRange.Has ⟨start, stop⟩ l ∧ ¬ Covers known l := by
  have hperm : (sortRanges known).Perm known := perm_insertionSort _ known
  refine ⟨(stretches_uncovered h known).proper, ?_, ?_⟩
  · exact apart_uncoveredFrom h (sortRanges_pairwise known) fun k hk =>
      hknown k (hperm.mem_iff.mp hk)
  · intro l
    rw [covers_uncovered]
    exact and_assoc.symm

/-- Nested ranges, and one that reaches the last Location there is. -/
theorem uncovered_complement_nested : let known : List LocRange :=
      [⟨⟨9, 0⟩, ⟨maxUint64, maxUint64⟩⟩, ⟨⟨2, 3⟩, ⟨4, 0⟩⟩, ⟨⟨3, 0⟩, ⟨3, 7⟩⟩]
    uncovered ⟨2, 0⟩ ⟨maxUint64, 5⟩ known =
        [⟨⟨2, 0⟩, ⟨2, 2⟩⟩, ⟨⟨4, 1⟩, ⟨8, maxUint64⟩⟩] ∧
      ∀ l, Covers (uncovered ⟨2, 0⟩ ⟨maxUint64, 5⟩ known) l ↔
        LocRange.Has ⟨⟨2, 0⟩, ⟨maxUint64, 5⟩⟩ l ∧ ¬ Covers known l := by
  refine ⟨by decide +kernel, (uncovered_complement (by decide +kernel) ?_).2.2⟩
  intro k hk
  simp only [mem_cons, not_mem_nil, or_false] at hk
  rcases hk with rfl | rfl | rfl
  · show _ ≤ _
    decide +kernel
  · show _ ≤ _
    decide +kernel
  · show _ ≤ _
    decide +kernel

/-! ## What two lists both cover -/

/-- The later of two Locations, and the earlier. -/
def later (a b : Location) : Location := if a.less b then b else a
def earlier (a b : Location) : Location := if a.less b then a else b

/-- The body of `intersect`'s loops. -/
def intersectOne (x y : LocRange) : Option LocRange :=
  let lo := later x.lo y.lo
  let hi := earlier y.hi x.hi
  if hi.less lo then none else some ⟨lo, hi⟩

/-- `intersect`: the Locations both `a` and `b` hold. -/
def intersect (a b : List LocRange) : List LocRange :=
  a.flatMap fun x => b.filterMap fun y => intersectOne x y

@[simp] theorem later_rank (a b : Location) : (later a b).rank = max a.rank b.rank := by
  unfold later
  split_ifs with h
  · exact (max_eq_right (Location.less_iff.mp h).le).symm
  · exact (max_eq_left (Location.not_less_iff.mp (Bool.eq_false_iff.mpr h))).symm

@[simp] theorem earlier_rank (a b : Location) : (earlier a b).rank = min a.rank b.rank := by
  unfold earlier
  split_ifs with h
  · exact (min_eq_left (Location.less_iff.mp h).le).symm
  · exact (min_eq_right (Location.not_less_iff.mp (Bool.eq_false_iff.mpr h))).symm

theorem intersectOne_some {x y : LocRange} (h : intersectOne x y = some r) :
    r.Proper ∧ ∀ l, r.Has l ↔ x.Has l ∧ y.Has l := by
  unfold intersectOne at h
  dsimp only at h
  split_ifs at h with hempty
  cases h
  refine ⟨Location.not_less_iff.mp (Bool.eq_false_iff.mpr hempty), ?_⟩
  simp only [LocRange.Has, later_rank, earlier_rank]
  omega

theorem intersectOne_none {x y : LocRange} (h : intersectOne x y = none) (l : Location) :
    ¬ (x.Has l ∧ y.Has l) := by
  unfold intersectOne at h
  dsimp only at h
  split_ifs at h with hempty
  have hlt := Location.less_iff.mp hempty
  rw [later_rank, earlier_rank] at hlt
  unfold LocRange.Has
  omega

theorem mem_intersect : r ∈ intersect a b ↔ ∃ x ∈ a, ∃ y ∈ b, intersectOne x y = some r := by
  simp [intersect, mem_flatMap, mem_filterMap]

theorem covers_intersect : Covers (intersect a b) l ↔ Covers a l ∧ Covers b l := by
  constructor
  · intro h
    obtain ⟨r, hr, hl⟩ := h
    obtain ⟨x, hx, y, hy, heq⟩ := mem_intersect.mp hr
    have hxy := ((intersectOne_some heq).2 l).mp hl
    exact ⟨⟨x, hx, hxy.1⟩, ⟨y, hy, hxy.2⟩⟩
  · intro h
    obtain ⟨⟨x, hx, hxl⟩, ⟨y, hy, hyl⟩⟩ := h
    cases heq : intersectOne x y with
    | none => exact absurd ⟨hxl, hyl⟩ (intersectOne_none heq l)
    | some r =>
      exact ⟨r, mem_intersect.mpr ⟨x, hx, y, hy, heq⟩, ((intersectOne_some heq).2 l).mpr ⟨hxl, hyl⟩⟩

theorem proper_intersect (h : r ∈ intersect a b) : r.Proper := by
  obtain ⟨x, -, y, -, heq⟩ := mem_intersect.mp h
  exact (intersectOne_some heq).1

end MoqGo.Relay
