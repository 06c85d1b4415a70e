import MoqGo.Lib.Runs
import MoqGo.Relay.Subscription
import MoqGo.Relay.TrackEntry

/-!
# The track registry (`pkg/relay/internal/registry/track_registry.go`)

The registry maps a track's key to its entry: the upstream subscriptions that feed the track and
the downstream ones that consume it, beside the watermark and the cache. It creates an entry for
whoever comes first and deletes it when both lists are empty; and it tells the Discovery store
when a track gets its first upstream and when it loses its last.

Every operation runs under the registry's lock, the calls to Discovery included; what follows
the unlocking is the termination of subscriptions, which is part of the operation here. A
subscription is a reference (`UpID`, `SubID`) into the registry's heaps; an entry carries its
own (`ref`), so that an entry made anew for a key is not the entry that was there before.

The fields `calls`, `dropped` and `members` of `TrackRegistry` are written and never read: the
calls to Discovery, the entries that were deleted, and the subscribers that registered and were
not removed.
-/

namespace MoqGo.Relay

open Message List

abbrev SessionID := Nat

/-- An upstream subscription, `*UpstreamSub`. -/
abbrev UpID := Nat

/-- `UpstreamSub`. `done` is the status of the PUBLISH_DONE it ended with. -/
structure UpstreamSub where
  id : UInt64
  session : SessionID
  onDemand : Bool := false
  done : Option PublishDoneCode := none
deriving DecidableEq, Repr, Inhabited

/-- A `DownstreamSub` with its `ID` and `Session`. -/
structure Subscriber where
  id : UInt64
  session : SessionID
  sub : DownstreamSub := {}
deriving DecidableEq, Repr, Inhabited

/-- The subscription is terminated. -/
def Subscriber.ended (s : Subscriber) : Bool := s.sub.state == .terminated

def publishDoneInternalError : PublishDoneCode := 0x0
def publishDoneTrackEnded : PublishDoneCode := 0x2
def publishDoneMalformedTrack : PublishDoneCode := 0x12

/-- `DownstreamDoneCode`: a code about the track passes, any other does not. -/
def downstreamDoneCode : Option PublishDoneCode → PublishDoneCode
  | none => publishDoneTrackEnded
  | some code =>
    if code = publishDoneTrackEnded ∨ code = publishDoneMalformedTrack then code
    else publishDoneInternalError

/-- `TrackEntry`, with what the registry keeps in it. -/
structure Track (S : Type) extends TrackEntry S where
  /-- The entry itself, `*TrackEntry`. -/
  ref : Nat
  upstream : List UpID := []
  properties : List UInt8 := []

def Track.empty {S : Type} (e : Track S) : Bool := e.upstream.isEmpty && e.downstream.isEmpty

/-- A call to the Discovery store. -/
inductive DiscoveryCall (K : Type)
  | publishTrack (key : K) (properties : List UInt8)
  | unpublishTrack (key : K)
deriving DecidableEq, Repr

/-- `NewTrackRegistry`'s options for the caches. -/
structure CacheConfig (K : Type) where
  maxSize : Nat := 1024
  maxDuration : Nat := 30000000000
  ttlPolicy : Option (K → Int) := none

/-- `resolveCacheTTL`. -/
def CacheConfig.resolveCacheTTL {K : Type} (c : CacheConfig K) (key : K) : Nat :=
  match c.ttlPolicy with
  | none => c.maxDuration
  | some policy =>
    if policy key < 0 then 0 else if 0 < policy key then (policy key).toNat else c.maxDuration

/-- `TrackRegistry`, with the heaps its entries refer to. -/
structure TrackRegistry (K S : Type) [DecidableEq K] where
  cache : CacheConfig K := {}
  tracks : GoMap K (Track S) := ∅
  ups : UpID → UpstreamSub
  subs : SubID → Subscriber
  nextRef : Nat := 0
  calls : List (DiscoveryCall K) := []
  dropped : List (Track S) := []
  members : List (K × SubID) := []

namespace TrackRegistry

variable {K S : Type} [DecidableEq K]

/-- `Get`. -/
def get (r : TrackRegistry K S) (key : K) : Option (Track S) := r.tracks.lookup key

def put (r : TrackRegistry K S) (key : K) (e : Track S) : TrackRegistry K S :=
  { r with tracks := r.tracks.insert key e }

/-- `delete(r.tracks, key)`. -/
def delete (r : TrackRegistry K S) (key : K) : TrackRegistry K S :=
  { r with tracks := r.tracks.erase key, dropped := (r.get key).toList ++ r.dropped }

def settle (r : TrackRegistry K S) (key : K) (e : Track S) : TrackRegistry K S :=
  if e.empty then (r.put key e).delete key else r.put key e

/-- `publishTrackToDiscovery`. -/
def publishTrackToDiscovery (r : TrackRegistry K S) (key : K) (e : Track S) :
    TrackRegistry K S :=
  { r with calls := r.calls ++ [.publishTrack key e.properties] }

/-- `unpublishTrackFromDiscovery`. -/
def unpublishTrackFromDiscovery (r : TrackRegistry K S) (key : K) : TrackRegistry K S :=
  { r with calls := r.calls ++ [.unpublishTrack key] }

/-- `TerminateWithPublishDone` of a subscription. -/
def terminate (code : PublishDoneCode) (reason : String) (r : TrackRegistry K S) (sub : SubID) :
    TrackRegistry K S :=
  match (r.subs sub).sub.terminateWithPublishDone code reason with
  | none => r
  | some d =>
    { r with subs := Function.update r.subs sub { r.subs sub with sub := d.takeReadyDone.1 } }

/-- `getOrCreateLocked`. -/
def getOrCreateLocked (r : TrackRegistry K S) (key : K) : TrackRegistry K S × Track S :=
  match r.get key with
  | some e => (r, e)
  | none =>
    let e : Track S :=
      { ref := r.nextRef, cache := .new r.cache.maxSize (r.cache.resolveCacheTTL key) }
    ({ r.put key e with nextRef := r.nextRef + 1 }, e)

/-- `GetOrCreateNew`: reports whether the entry was created. -/
def getOrCreateNew (r : TrackRegistry K S) (key : K) : TrackRegistry K S × Track S × Bool :=
  match r.get key with
  | some e => (r, e, false)
  | none => ((r.getOrCreateLocked key).1, (r.getOrCreateLocked key).2, true)

/-- `DeleteIfUnused`. -/
def deleteIfUnused (r : TrackRegistry K S) (key : K) : TrackRegistry K S :=
  match r.get key with
  | none => r
  | some e =>
    if e.hasLargestObject then r
    else if 0 < e.cache.size then r
    else if e.empty then r.delete key
    else r

/-- `AddUpstream`: reports whether it is the track's first. -/
def addUpstream (r : TrackRegistry K S) (key : K) (u : UpID) (properties : Option (List UInt8)) :
    TrackRegistry K S × Bool :=
  let (r, e) := r.getOrCreateLocked key
  let becameNonEmpty := e.upstream.isEmpty
  let e := { e with
    upstream := e.upstream ++ [u]
    properties := match properties with
      | some props => if e.properties = [] then props else e.properties
      | none => e.properties }
  let r := r.put key e
  (if becameNonEmpty then r.publishTrackToDiscovery key e else r, becameNonEmpty)

/-- `AddDownstreamSnapshotLargest`: the Largest Object, unless the track has no upstream. -/
def addDownstreamSnapshotLargest (r : TrackRegistry K S) (key : K) (sub : SubID) :
    TrackRegistry K S × Option (Location × Bool) :=
  match r.get key with
  | none => (r, none)
  | some e =>
    if e.upstream = [] then (r, none)
    else
      ({ r.put key { e with
          toTrackEntry := e.toTrackEntry.addDownstreamSnapshotLargest sub } with
        members := r.members ++ [(key, sub)] },
        some (e.largestObject, e.hasLargestObject))

/-- What `RemoveUpstream` and `RemoveDownstream` return: whether one was removed, whether the
    list is empty now, and whether the entry was deleted. -/
structure Removed where
  removed : Bool := false
  nowEmpty : Bool := false
  entryDeleted : Bool := false
deriving DecidableEq, Repr

/-- `RemoveUpstream`. -/
def removeUpstream (r : TrackRegistry K S) (key : K) (subID : UInt64) :
    TrackRegistry K S × Removed :=
  match r.get key with
  | none => (r, {})
  | some e =>
    let upstream := e.upstream.filter fun u => (r.ups u).id ≠ subID
    if upstream.length = e.upstream.length then (r, { nowEmpty := upstream.isEmpty })
    else
      let gone := (e.upstream.filter fun u => (r.ups u).id = subID).getLast?
      let r' := r.settle key { e with upstream := upstream }
      if upstream = [] then
        let code := downstreamDoneCode (gone.bind fun u => (r.ups u).done)
        (e.downstream.foldl (terminate code "relay: upstream gone")
          (r'.unpublishTrackFromDiscovery key), ⟨true, true, e.downstream.isEmpty⟩)
      else (r', ⟨true, false, false⟩)

/-- `stripOnDemandLocked`: what it leaves. -/
def stripOnDemand (ups : UpID → UpstreamSub) (upstream : List UpID) : List UpID :=
  upstream.filter fun u => !(ups u).onDemand

/-- `RemoveDownstream`. The last one's leaving strips the upstreams opened on demand. -/
def removeDownstream (r : TrackRegistry K S) (key : K) (subID : UInt64) :
    TrackRegistry K S × Removed :=
  let members := r.members.filter fun m => ¬ (m.1 = key ∧ (r.subs m.2).id = subID)
  match r.get key with
  | none => ({ r with members := members }, {})
  | some e =>
    let downstream := e.downstream.filter fun sub => (r.subs sub).id ≠ subID
    if downstream.length = e.downstream.length then
      ({ r with members := members }, { nowEmpty := downstream.isEmpty })
    else
      let upstream := if downstream = [] then stripOnDemand r.ups e.upstream else e.upstream
      let e' := { e with downstream := downstream, upstream := upstream }
      let r' := { r.settle key e' with members := members }
      (if e.upstream ≠ [] ∧ upstream = [] then r'.unpublishTrackFromDiscovery key else r',
        ⟨true, downstream.isEmpty, downstream.isEmpty && upstream.isEmpty⟩)

/-- `ReleaseIfUnsubscribed`: reports whether `up` was released. -/
def releaseIfUnsubscribed (r : TrackRegistry K S) (key : K) (up : UpID) :
    TrackRegistry K S × Bool :=
  match r.get key with
  | none => (r, false)
  | some e =>
    let upstream := if e.downstream = [] then e.upstream.filter (· ≠ up) else e.upstream
    let released := decide (upstream.length < e.upstream.length)
    let r' := r.put key { e with upstream := upstream }
    (if released ∧ upstream = [] then (r'.delete key).unpublishTrackFromDiscovery key else r',
      released)

/-! ## `RemoveSession` -/

/-- The body of `RemoveSession`'s loop, of an entry: what it leaves of it, and, if its last
    upstream goes, the subscriptions to be told. The upstreams opened on demand are stripped if
    a subscription of the session was the last; there is nobody to be told then. -/
def withoutSession (ups : UpID → UpstreamSub) (subs : SubID → Subscriber) (sess : SessionID)
    (e : Track S) : Track S × Option (List SubID) :=
  let upstream := e.upstream.filter fun u => (ups u).session ≠ sess
  let downstream := e.downstream.filter fun sub => (subs sub).session ≠ sess
  if e.upstream ≠ [] ∧ upstream = [] then
    ({ e with upstream := upstream, downstream := downstream }, some downstream)
  else if downstream.length < e.downstream.length ∧ downstream = [] ∧ upstream ≠ [] then
    let kept := stripOnDemand ups upstream
    ({ e with upstream := kept, downstream := downstream }, if kept = [] then some [] else none)
  else ({ e with upstream := upstream, downstream := downstream }, none)

/-- What `RemoveSession`'s loop has gathered: the tracks whose last upstream went, with the
    subscriptions to be told, and how many subscriptions of the session it removed. -/
structure Sweep (K S : Type) [DecidableEq K] where
  registry : TrackRegistry K S
  orphans : List (K × List SubID) := []
  upstreamRemoved : Nat := 0
  downstreamRemoved : Nat := 0

/-- One turn of `RemoveSession`'s loop. -/
def sweep (sess : SessionID) (acc : Sweep K S) (key : K) : Sweep K S :=
  let r := acc.registry
  match r.get key with
  | none => acc
  | some e =>
    let (e', orphan) := withoutSession r.ups r.subs sess e
    { registry := r.settle key e'
      orphans := acc.orphans ++ (orphan.map (key, ·)).toList
      upstreamRemoved := acc.upstreamRemoved +
        e.upstream.countP fun u => (r.ups u).session = sess
      downstreamRemoved := acc.downstreamRemoved +
        e.downstream.countP fun sub => (r.subs sub).session = sess }

/-- `RemoveSession`: how many upstreams and downstreams it removed. `order` is the order in which
    the loop finds the keys. -/
def removeSession (r : TrackRegistry K S) (sess : SessionID) (order : List K) :
    TrackRegistry K S × Nat × Nat :=
  let swept := order.foldl (sweep sess) { registry := r }
  let r' := { swept.registry with
    members := r.members.filter fun m => (r.subs m.2).session ≠ sess }
  let r' := swept.orphans.foldl (fun r o => r.unpublishTrackFromDiscovery o.1) r'
  ((swept.orphans.flatMap (·.2)).foldl
    (terminate publishDoneTrackEnded "relay: publisher session gone") r',
    swept.upstreamRemoved, swept.downstreamRemoved)

/-! ## Runs -/

inductive Op (K : Type)
  | getOrCreateNew (key : K)
  | deleteIfUnused (key : K)
  | addUpstream (key : K) (u : UpID) (properties : Option (List UInt8))
  | addDownstreamSnapshotLargest (key : K) (sub : SubID)
  | removeUpstream (key : K) (subID : UInt64)
  | removeDownstream (key : K) (subID : UInt64)
  | releaseIfUnsubscribed (key : K) (up : UpID)
  | removeSession (sess : SessionID) (order : List K)
  /-- `SetPublishDone`. -/
  | setPublishDone (u : UpID) (code : PublishDoneCode)
  /-- The fan-out changes the track's watermark and cache. -/
  | deliver (key : K) (largest : Location) (cache : ObjectCache)

/-- One step. The loop of `RemoveSession` finds every key once, in any order. -/
def step (r : TrackRegistry K S) : Op K → Option (TrackRegistry K S)
  | .getOrCreateNew key => some (r.getOrCreateNew key).1
  | .deleteIfUnused key => some (r.deleteIfUnused key)
  | .addUpstream key u properties => some (r.addUpstream key u properties).1
  | .addDownstreamSnapshotLargest key sub => some (r.addDownstreamSnapshotLargest key sub).1
  | .removeUpstream key subID => some (r.removeUpstream key subID).1
  | .removeDownstream key subID => some (r.removeDownstream key subID).1
  | .releaseIfUnsubscribed key up => some (r.releaseIfUnsubscribed key up).1
  | .removeSession sess order =>
    if order.Perm r.tracks.keys then some (r.removeSession sess order).1 else none
  | .setPublishDone u code =>
    some { r with ups := Function.update r.ups u { r.ups u with done := some code } }
  | .deliver key largest cache =>
    some <| match r.get key with
      | none => r
      | some e =>
        r.put key { e with
          toTrackEntry := { e.toTrackEntry.updateLargest largest with cache := cache } }

/-- The start: no track, whatever the subscriptions will be. -/
def init (ups : UpID → UpstreamSub) (subs : SubID → Subscriber) : TrackRegistry K S :=
  { ups := ups, subs := subs }

/-! ## Lookups -/

@[simp] theorem get_put (r : TrackRegistry K S) (key k : K) (e : Track S) :
    (r.put key e).get k = if k = key then some e else r.get k := by
  split_ifs with hk
  · subst hk
    exact AList.lookup_insert _
  · exact AList.lookup_insert_ne hk

@[simp] theorem get_delete (r : TrackRegistry K S) (key k : K) :
    (r.delete key).get k = if k = key then none else r.get k := by
  split_ifs with hk
  · subst hk
    exact AList.lookup_erase k _
  · exact AList.lookup_erase_ne hk

@[simp] theorem get_settle (r : TrackRegistry K S) (key k : K) (e : Track S) :
    (r.settle key e).get k = if k = key then some e |>.filter fun e => !e.empty else r.get k := by
  unfold settle
  split_ifs with hempty hk hk
  · simp [hk, hempty, Option.filter_some]
  · simp [hk]
  · simp [hk, hempty, Option.filter_some]
  · simp [hk]

/-- What is stored or deleted at a key leaves the rest of the registry alone; what is deleted is
    empty. -/
theorem settle_eq (r : TrackRegistry K S) (key : K) (e : Track S) :
    ∃ tracks dropped, r.settle key e = { r with tracks := tracks, dropped := dropped } ∧
      ∀ e' ∈ dropped, e' ∈ r.dropped ∨ e'.empty = true := by
  unfold settle
  split_ifs with hempty
  · refine ⟨_, _, rfl, ?_⟩
    intro e' he'
    simp only [get_put, if_true, Option.toList_some, singleton_append, mem_cons] at he'
    rcases he' with rfl | he'
    · exact .inr hempty
    · exact .inl he'
  · exact ⟨_, r.dropped, rfl, fun _ he' => .inl he'⟩

/-- **The loop**: every key in `order` is treated once. -/
structure Swept (sess : SessionID) (order : List K) (r : TrackRegistry K S) (s : Sweep K S)
    (orphans : List (K × List SubID)) : Prop where
  get : ∀ k, s.registry.get k = if k ∈ order then
      ((r.get k).map fun e => (withoutSession r.ups r.subs sess e).1).filter fun e => !e.empty
    else r.get k
  orphans : s.orphans = orphans ++ order.filterMap fun k =>
    (r.get k).bind fun e => (withoutSession r.ups r.subs sess e).2.map (k, ·)
  rest : ∃ tracks dropped, s.registry = { r with tracks := tracks, dropped := dropped } ∧
    ∀ e ∈ dropped, e ∈ r.dropped ∨ e.empty = true

theorem swept_sweep (sess : SessionID) (acc : Sweep K S) (key : K) :
    Swept sess [key] acc.registry (sweep sess acc key) acc.orphans := by
  cases hget : acc.registry.get key with
  | none =>
    have heq : sweep sess acc key = acc := by simp only [sweep, hget]
    rw [heq]
    refine ⟨?_, by simp [hget], _, _, rfl, fun e he => .inl he⟩
    intro k
    by_cases hk : k = key
    · subst hk
      simp [hget]
    · simp [hk]
  | some e =>
    simp only [sweep, hget]
    refine ⟨?_, ?_, settle_eq _ _ _⟩
    · intro k
      by_cases hk : k = key
      · subst hk
        simp [hget]
      · simp [hk]
    · simp only [filterMap_cons, filterMap_nil, hget, Option.bind_some]
      cases (withoutSession acc.registry.ups acc.registry.subs sess e).2 <;> rfl

theorem swept_foldl (sess : SessionID) {order : List K} (hnodup : order.Nodup) (acc : Sweep K S) :
    Swept sess order acc.registry (order.foldl (sweep sess) acc) acc.orphans := by
  induction order generalizing acc with
  | nil => exact ⟨by simp, by simp, _, _, rfl, fun e he => .inl he⟩
  | cons key order ih =>
    rw [nodup_cons] at hnodup
    have hone := swept_sweep sess acc key
    have hrest := ih hnodup.2 (sweep sess acc key)
    obtain ⟨tracks₁, dropped₁, heq₁, hdropped₁⟩ := hone.rest
    obtain ⟨tracks₂, dropped₂, heq₂, hdropped₂⟩ := hrest.rest
    have hups : (sweep sess acc key).registry.ups = acc.registry.ups := by rw [heq₁]
    have hsubs : (sweep sess acc key).registry.subs = acc.registry.subs := by rw [heq₁]
    -- the first turn leaves the keys to come as they were
    have hsame : ∀ k ∈ order, (sweep sess acc key).registry.get k = acc.registry.get k := by
      intro k hk
      have hne : k ≠ key := fun h => hnodup.1 (h ▸ hk)
      rw [hone.get, if_neg (by simpa using hne)]
    refine ⟨?_, ?_, tracks₂, dropped₂, ?_, ?_⟩
    · intro k
      rw [foldl_cons, hrest.get, hups, hsubs]
      by_cases hk : k ∈ order
      · simp [hk, hsame k hk]
      · simp [hk, hone.get]
    · rw [foldl_cons, hrest.orphans, hone.orphans, hups, hsubs, append_assoc]
      have hcongr : ∀ k ∈ order, ((sweep sess acc key).registry.get k).bind (fun e =>
            (withoutSession acc.registry.ups acc.registry.subs sess e).2.map (k, ·)) =
          (acc.registry.get k).bind fun e =>
            (withoutSession acc.registry.ups acc.registry.subs sess e).2.map (k, ·) := by
        intro k hk
        rw [hsame k hk]
      rw [filterMap_congr hcongr, ← filterMap_append]
      rfl
    · rw [foldl_cons, heq₂, heq₁]
    · intro e he
      rcases hdropped₂ e he with he | he
      · rw [heq₁] at he
        exact hdropped₁ e he
      · exact .inr he

end TrackRegistry
end MoqGo.Relay
