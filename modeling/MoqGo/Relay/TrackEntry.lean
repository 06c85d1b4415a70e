import MoqGo.Relay.Ledger.Basic

/-!
# A track's entry (`pkg/relay/internal/registry/track_entry.go`, `track_registry.go`)

A `TrackEntry` is what the relay keeps per track. Its parts are guarded by locks of their own,
so each operation below is one atomic step of the system in `Relay/Fanout`:

* `deliveredMu`: the ledger. A call that finds the track malformed also removes the offending
  Objects from the cache, under the same lock (`call`);
* `mu`: the Largest Object and the downstream subscriptions;
* `sgMu`: the Subgroups being fanned out, with their contributor counts. What a Subgroup
  shares is opaque here, as in the source: the type variable `S`.
-/

namespace MoqGo.Relay

open Message

/-- A downstream subscription, `*DownstreamSub`. -/
abbrev SubID := Nat

/-- `SubgroupKey`. -/
structure SubgroupKey where
  group : UInt64
  subgroup : UInt64
deriving DecidableEq, Repr, Inhabited

/-- `SharedSubgroup`. `refs` counts the live inbound contributors. -/
structure SharedSubgroup (S : Type) where
  set : S
  refs : Nat
deriving DecidableEq, Repr

/-- `TrackEntry`. -/
structure TrackEntry (S : Type) where
  ledger : Ledger := {}
  cache : ObjectCache := ObjectCache.new 0 0
  largestObject : Location := {}
  hasLargestObject : Bool := false
  downstream : List SubID := []
  downstreamGen : Nat := 0
  subgroups : GoMap SubgroupKey (SharedSubgroup S) := ∅

namespace TrackEntry

variable {S : Type} {key : SubgroupKey}

/-! ## The ledger and the cache -/

/-- `purgePastLocked`. -/
def purgePast (e : TrackEntry S) (now : Nat) (group : UInt64) (subgroup : Option UInt64)
    (ended : End) : TrackEntry S :=
  let objs := e.cache.getRange now ⟨group, ended.atID⟩ ⟨group, maxUint64⟩ .ascending
  let doomed := objs.filter fun o =>
    ended.past o.objectID (o.status == objectStatusNormal) &&
      subgroup.all fun sg => o.forwardingPref == .subgroup && o.subgroupID == sg
  { e with cache := doomed.foldl (fun c o => c.delete ⟨group, o.objectID⟩) e.cache }

/-- `purgeGroupLocked`. -/
def purgeGroup (e : TrackEntry S) (now : Nat) (group : UInt64) : TrackEntry S :=
  let objs := e.cache.getRange now ⟨group, 0⟩ ⟨group, maxUint64⟩ .ascending
  { e with cache := objs.foldl (fun c o => c.delete ⟨group, o.objectID⟩) e.cache }

/-- `purgeTrackPastLocked`, its effect on the cache. -/
def purgeTrackPast (e : TrackEntry S) (now : Nat) (loc : Location) : TrackEntry S :=
  let ended : End := ⟨loc.object, true, false⟩
  e.ledger.delivered.entries.foldl (fun e ⟨id, g⟩ =>
    if loc.group < id then e.purgeGroup now id
    else if id == loc.group && g.pastEnd ended then e.purgePast now id none ended
    else e) e

def purge (e : TrackEntry S) (now : Nat) : Purge → TrackEntry S
  | .past group subgroup ended => e.purgePast now group subgroup ended
  | .trackPast loc => e.purgeTrackPast now loc

/-- A call on the ledger: `ClaimDelivered`, `RecordDuplicate` or `SubgroupEnded`. -/
def call (e : TrackEntry S) (now : Nat) (c : Ledger.Call) : TrackEntry S × Ledger.Reply :=
  let (ledger, reply) := e.ledger.call c
  let e := match reply.err.bind (·.purge) with
    | some p => e.purge now p
    | none => e
  ({ e with ledger := ledger }, reply)

@[simp] theorem call_ledger (e : TrackEntry S) (now : Nat) (c : Ledger.Call) :
    (e.call now c).1.ledger = (e.ledger.call c).1 := rfl

@[simp] theorem call_reply (e : TrackEntry S) (now : Nat) (c : Ledger.Call) :
    (e.call now c).2 = (e.ledger.call c).2 := rfl

theorem purge_eq (e : TrackEntry S) (now : Nat) (p : Purge) :
    ∃ cache, e.purge now p = { e with cache := cache } := by
  cases p with
  | past group subgroup ended => exact ⟨_, rfl⟩
  | trackPast loc =>
    simp only [purge, purgeTrackPast]
    generalize e.ledger.delivered.entries = gs
    induction gs generalizing e with
    | nil => exact ⟨e.cache, rfl⟩
    | cons g gs ih =>
      rw [List.foldl_cons]
      split_ifs
      · obtain ⟨cache, h⟩ := ih (e.purgeGroup now g.1)
        exact ⟨cache, h⟩
      · obtain ⟨cache, h⟩ := ih (e.purgePast now g.1 none ⟨loc.object, true, false⟩)
        exact ⟨cache, h⟩
      · exact ih e

/-- The entry after a call on the ledger, if there was one, and with its cache as it then is. -/
def after (e : TrackEntry S) (c : Option Ledger.Call) (cache : ObjectCache) : TrackEntry S :=
  { e with
    ledger := match c with
      | some c => (e.ledger.call c).1
      | none => e.ledger
    cache := cache }

theorem call_eq (e : TrackEntry S) (now : Nat) (c : Ledger.Call) :
    ∃ cache, (e.call now c).1 = e.after (some c) cache := by
  simp only [call]
  split
  · next p _ =>
    obtain ⟨cache, h⟩ := e.purge_eq now p
    exact ⟨cache, by rw [h]; rfl⟩
  · exact ⟨e.cache, rfl⟩

/-- `ClaimDelivered`: the entry, the verdict and the error. -/
def claimDelivered (e : TrackEntry S) (now : Nat) (o : ObjectInfo) :
    TrackEntry S × Claim × Option Malformed :=
  ((e.call now (.claimDelivered o)).1, (e.ledger.claimDelivered o).2)

/-! ## Subscribers -/

/-- `UpdateLargest`, its effect. -/
def updateLargest (e : TrackEntry S) (loc : Location) : TrackEntry S :=
  if !e.hasLargestObject || e.largestObject.less loc then
    { e with largestObject := loc, hasLargestObject := true }
  else e

theorem updateLargest_eq (e : TrackEntry S) (loc : Location) :
    ∃ largest known, e.updateLargest loc =
      { e with largestObject := largest, hasLargestObject := known } := by
  unfold updateLargest
  split_ifs
  · exact ⟨loc, true, rfl⟩
  · exact ⟨e.largestObject, e.hasLargestObject, rfl⟩

/-- `UpdateLargestAndDetectNew`: the subscribers not `seen` yet, unless none was added since
    the caller's last look. -/
def updateLargestAndDetectNew (e : TrackEntry S) (loc : Location) (seen : SubID → Bool)
    (lastGen : Nat) : TrackEntry S × List SubID × Nat :=
  let e := e.updateLargest loc
  if e.downstreamGen = lastGen then (e, [], e.downstreamGen)
  else (e, e.downstream.filter fun sub => !seen sub, e.downstreamGen)

theorem updateLargestAndDetectNew_eq (e : TrackEntry S) (loc : Location) (seen : SubID → Bool)
    (lastGen : Nat) :
    ∃ largest known subs, e.updateLargestAndDetectNew loc seen lastGen =
      ({ e with largestObject := largest, hasLargestObject := known }, subs, e.downstreamGen) ∧
      ∀ sub, sub ∈ subs ↔ e.downstreamGen ≠ lastGen ∧ sub ∈ e.downstream ∧ seen sub = false := by
  obtain ⟨largest, known, h⟩ := e.updateLargest_eq loc
  unfold updateLargestAndDetectNew
  simp only [h]
  split_ifs with hgen
  · exact ⟨largest, known, [], rfl, by simp [hgen]⟩
  · exact ⟨largest, known, _, rfl, by simp [hgen]⟩

/-- `CopyDownstreamWithGen`. -/
def copyDownstreamWithGen (e : TrackEntry S) : List SubID × Nat := (e.downstream, e.downstreamGen)

/-- `AddDownstreamSnapshotLargest`, for a track with an upstream: registers `sub`; the Largest
    Object it snapshots is the one before. -/
def addDownstreamSnapshotLargest (e : TrackEntry S) (sub : SubID) : TrackEntry S :=
  { e with downstream := e.downstream ++ [sub], downstreamGen := e.downstreamGen + 1 }

/-- `RemoveDownstream`, its effect on the entry. The generation counts registrations only. -/
def removeDownstream (e : TrackEntry S) (sub : SubID) : TrackEntry S :=
  { e with downstream := e.downstream.filter (· ≠ sub) }

/-! ## Subgroups being fanned out -/

/-- `AcquireSubgroup`: joins the Subgroup's shared state, made by `newSet` for the first
    contributor. Reports the state and whether this call made it. -/
def acquireSubgroup (e : TrackEntry S) (key : SubgroupKey) (newSet : S) :
    TrackEntry S × S × Bool :=
  match e.subgroups.lookup key with
  | some sg =>
    ({ e with subgroups := e.subgroups.insert key { sg with refs := sg.refs + 1 } }, sg.set, false)
  | none => ({ e with subgroups := e.subgroups.insert key ⟨newSet, 1⟩ }, newSet, true)

/-- `ReleaseSubgroup`: drops one contributor and reports whether it was the last, in which case
    the shared state is forgotten. -/
def releaseSubgroup (e : TrackEntry S) (key : SubgroupKey) : TrackEntry S × Bool :=
  match e.subgroups.lookup key with
  | none => (e, false)
  | some sg =>
    if sg.refs ≤ 1 then ({ e with subgroups := e.subgroups.erase key }, true)
    else
      ({ e with subgroups := e.subgroups.insert key { sg with refs := sg.refs - 1 } }, false)

theorem releaseSubgroup_eq (e : TrackEntry S) (key : SubgroupKey) :
    ∃ subgroups, (e.releaseSubgroup key).1 = { e with subgroups := subgroups } := by
  unfold releaseSubgroup
  split
  · exact ⟨e.subgroups, rfl⟩
  · split_ifs <;> exact ⟨_, rfl⟩

theorem releaseSubgroup_ledger (e : TrackEntry S) (key : SubgroupKey) :
    (e.releaseSubgroup key).1.ledger = e.ledger := by
  obtain ⟨subgroups, h⟩ := e.releaseSubgroup_eq key
  rw [h]

theorem releaseSubgroup_downstream (e : TrackEntry S) (key : SubgroupKey) :
    (e.releaseSubgroup key).1.downstream = e.downstream ∧
      (e.releaseSubgroup key).1.downstreamGen = e.downstreamGen := by
  obtain ⟨subgroups, h⟩ := e.releaseSubgroup_eq key
  simp only [h, and_self]

theorem lookup_insert_refs {m : GoMap SubgroupKey (SharedSubgroup S)} {k : SubgroupKey}
    {sg : SharedSubgroup S} {set : S} {n refs : Nat} (hl : m.lookup key = some sg)
    (h : (m.insert key { sg with refs := n }).lookup k = some ⟨set, refs⟩) :
    ∃ refs', m.lookup k = some ⟨set, refs'⟩ := by
  by_cases hk : k = key
  · subst hk
    rw [AList.lookup_insert] at h
    cases h
    exact ⟨sg.refs, hl⟩
  · rw [AList.lookup_insert_ne hk] at h
    exact ⟨refs, h⟩

theorem releaseSubgroup_lookup {e : TrackEntry S} {k : SubgroupKey} {set : S} {refs : Nat}
    (h : (e.releaseSubgroup key).1.subgroups.lookup k = some ⟨set, refs⟩) :
    ∃ refs', e.subgroups.lookup k = some ⟨set, refs'⟩ := by
  unfold releaseSubgroup at h
  split at h
  · exact ⟨refs, h⟩
  · next sg hl =>
    split_ifs at h
    · by_cases hk : k = key
      · subst hk
        rw [AList.lookup_erase] at h
        cases h
      · rw [AList.lookup_erase_ne hk] at h
        exact ⟨refs, h⟩
    · exact lookup_insert_refs hl h

theorem releaseSubgroup_last {e : TrackEntry S} (h : (e.releaseSubgroup key).2 = true) :
    (e.releaseSubgroup key).1.subgroups.lookup key = none := by
  unfold releaseSubgroup at h ⊢
  split
  · next hl => exact hl
  · next sg hl =>
    simp only [hl] at h
    split_ifs at h ⊢
    exact AList.lookup_erase key _

end TrackEntry
end MoqGo.Relay
