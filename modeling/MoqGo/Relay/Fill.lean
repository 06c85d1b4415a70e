import MoqGo.Relay.Subscription

/-!
# Fill streams (`handler_fill.go`, `handler_fetch.go`)

A subscriber that asks for what comes next can have what came before with it: FILL_PARAMETERS open
a fill stream, which is served with the rules of a FETCH, from the start of its own Location Filter
up to the Largest Object. What comes after that object is live. Both ranges are resolved against the
same Largest Object, each by its own function, so **no Object should be sent twice or not at all**.

The boundary is right but for one Largest Object. The last Object ID of a Group has no successor,
and `Start` stays on it: the Largest Object is live as well as filled (`last_object_twice`).
-/

namespace MoqGo.Relay

open Message

/-- `capFetchEndLocation`. -/
def capFetchEndLocation (filter : LocationFilter) (largest : Location) : Location :=
  match filter.end_ with
  | none => largest
  | some e => if largest.less e then largest else e

/-- `maybeServeFill`: the first and the last Location of the fill stream, if one is opened. `inner`
    is the LOCATION_FILTER inside FILL_PARAMETERS. -/
def DownstreamSub.maybeServeFill (d : DownstreamSub) (inner : Option LocationFilter)
    (largest : Location) (hasLargest : Bool) : Option (Location × Location) :=
  if d.forwardState ≠ 1 then none
  else if !hasLargest then none
  else
    let filter := (inner.or d.filter).getD { type := .none }
    let start := filter.start largest hasLargest
    let stop := capFetchEndLocation filter largest
    if largest.less start || stop.less start then none else some (start, stop)

/-- The Location is on the fill stream. -/
def InFill (range : Option (Location × Location)) (loc : Location) : Prop :=
  ∃ r ∈ range, loc.less r.1 = false ∧ r.2.less loc = false

instance (range : Option (Location × Location)) (loc : Location) : Decidable (InFill range loc) :=
  match range with
  | none => isFalse (by rintro ⟨r, hr, -⟩; cases hr)
  | some r => decidable_of_iff (loc.less r.1 = false ∧ r.2.less loc = false)
      ⟨fun h => ⟨r, rfl, h⟩, by rintro ⟨r, hr, h⟩; cases hr; exact h⟩

theorem capFetchEndLocation_le (filter : LocationFilter) (largest : Location) :
    largest.less (capFetchEndLocation filter largest) = false := by
  have hself : largest.less largest = false := by
    rw [← Bool.not_eq_true, Location.less_iff]
    exact Nat.lt_irrefl _
  unfold capFetchEndLocation
  split
  · exact hself
  · split_ifs with hless
    · exact hself
    · rwa [Bool.not_eq_true] at hless

theorem not_less_of_inFill {d : DownstreamSub} {inner : Option LocationFilter}
    {largest loc : Location} {hasLargest : Bool}
    (h : InFill (d.maybeServeFill inner largest hasLargest) loc) : largest.less loc = false := by
  obtain ⟨⟨start, stop⟩, hrange, -, hstop⟩ := h
  simp only [DownstreamSub.maybeServeFill, Option.mem_def, Option.ite_none_left_eq_some,
    Option.some.injEq, Prod.mk.injEq] at hrange
  obtain ⟨-, -, -, -, rfl⟩ := hrange
  have hcap := capFetchEndLocation_le ((inner.or d.filter).getD { type := .none }) largest
  rw [Location.not_less_iff] at hstop hcap ⊢
  exact hstop.trans hcap

/-- **Fill and live part the track exactly if the Largest Object is not the last of its Group.** -/
theorem fill_live_partition_iff {d : DownstreamSub} {live : LocationFilter}
    (hfilter : d.filter = some live) (hlive : live.type = .nextObject) (largest : Location) :
    ((∀ loc, (d.setLargestAtSubscribe largest true).passesLocation loc = true ↔
        largest.less loc = true) ∧
      ∀ fill : LocationFilter, fill.validate = .ok () → ∀ loc,
        ¬ (InFill (d.maybeServeFill (some fill) largest true) loc ∧
            (d.setLargestAtSubscribe largest true).passesLocation loc = true) ∧
        (largest.less loc = true → InFill (d.maybeServeFill (some fill) largest true) loc ∨
          (d.setLargestAtSubscribe largest true).passesLocation loc = true)) ↔
      largest.object ≠ maxUint64 := by
  have hmatch : ∀ loc, (d.setLargestAtSubscribe largest true).passesLocation loc = true ↔
      largest.less loc = true ∨ loc = largest ∧ largest.object = maxUint64 := by
    intro loc
    have hnext := LocationFilter.matchesLocation_nextObject hlive loc largest true
    simpa [DownstreamSub.passesLocation, DownstreamSub.setLargestAtSubscribe, hfilter] using hnext
  constructor
  · intro ⟨hpast, _⟩ hmax
    have hless := (hpast largest).mp ((hmatch largest).mpr (.inr ⟨rfl, hmax⟩))
    rw [Location.less_iff] at hless
    exact Nat.lt_irrefl _ hless
  · intro hne
    have hpast : ∀ loc, (d.setLargestAtSubscribe largest true).passesLocation loc = true ↔
        largest.less loc = true := by
      intro loc
      rw [hmatch]
      simp [hne]
    refine ⟨hpast, fun fill _ loc => ⟨fun ⟨hfill, hin⟩ => ?_, fun hless => ?_⟩⟩
    · rw [hpast, not_less_of_inFill hfill] at hin
      cases hin
    · exact .inr ((hpast loc).mpr hless)

/-- A subscription to what comes next. -/
def nextObjectSub : DownstreamSub := { filter := some { type := .nextObject } }

/-- With Object 5 of Group 2 as the Largest, a fill of the last two Groups ends with it. -/
theorem fill_live_partition_five :
    nextObjectSub.maybeServeFill (some { type := .relativeStart, startGroup := 2 }) ⟨2, 5⟩ true =
      some (⟨1, 0⟩, ⟨2, 5⟩) ∧
    ∀ loc, (nextObjectSub.setLargestAtSubscribe ⟨2, 5⟩ true).passesLocation loc = true ↔
      Location.less ⟨2, 5⟩ loc = true := by
  refine ⟨by decide, ?_⟩
  exact ((fill_live_partition_iff rfl rfl ⟨2, 5⟩).mpr (by decide)).1

/-- The last Object of Group 2 is the Largest: it is on the fill stream, and live. -/
theorem last_object_twice :
    InFill (nextObjectSub.maybeServeFill (some { type := .none }) ⟨2, maxUint64⟩ true)
      ⟨2, maxUint64⟩ ∧
    (nextObjectSub.setLargestAtSubscribe ⟨2, maxUint64⟩ true).passesLocation ⟨2, maxUint64⟩ =
      true ∧
    Location.less ⟨2, maxUint64⟩ ⟨2, maxUint64⟩ = false := by
  decide

end MoqGo.Relay
