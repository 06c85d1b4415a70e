import MoqGo.Relay.Fanout.World
import MoqGo.Relay.Subscription

/-!
# A datagram's way through the relay (`handleDatagram`, `pkg/relay/handler_datagram.go`)

The counterpart of `runFanout` for an Object that arrives as a datagram. It is claimed on the
ledger, and what is redundant is only recorded; a fresh one is cached, raises the Largest
Object, and is then put to every subscription that `CopyDownstream` returned, one after the
other. Between two of these steps anything else may happen.
-/

namespace MoqGo.Relay

open Message

/-- `message.ObjectDatagram`, its priority resolved, with the track's MAX_CACHE_DURATION. -/
structure ObjectDatagram where
  groupID : UInt64
  objectID : UInt64
  publisherPriority : UInt8 := 0
  objectStatus : UInt64 := 0
  endOfGroup : Bool := false
  properties : List UInt8 := []
  objectPayload : List UInt8 := []
  maxCacheDuration : Option Nat := none
deriving DecidableEq, Repr, Inhabited

namespace ObjectDatagram

/-- The Object the ledger is asked about. -/
def info (d : ObjectDatagram) : ObjectInfo where
  group := d.groupID
  object := d.objectID
  datagram := true
  priority := d.publisherPriority
  status := d.objectStatus
  endOfGroup := d.endOfGroup
  gaps := objectPriorGaps d.properties

/-- The Object as `PutDatagram` caches it. -/
def cached (d : ObjectDatagram) : CachedObject where
  groupID := d.groupID
  objectID := d.objectID
  publisherPriority := d.publisherPriority
  forwardingPref := .datagram
  status := d.objectStatus
  properties := d.properties
  payload := d.objectPayload
  maxCacheDuration := d.maxCacheDuration.getD 0
  hasMaxCacheDuration := d.maxCacheDuration.isSome

/-- The Object a subscription is asked about. §2.2: a datagram belongs to no Subgroup, and is
    filtered as one of Subgroup 0. -/
def attrs (d : ObjectDatagram) : ObjectAttrs where
  subgroupID := 0
  objectID := d.objectID
  priority := d.publisherPriority
  props := d.properties

end ObjectDatagram

/-- Where `handleDatagram` stands. -/
inductive DatagramPhase
  | received
  /-- `ClaimDelivered` returned something else than `ClaimFresh`. -/
  | redundant
  /-- `checkDuplicate` found no difference. -/
  | recording
  | fresh
  | cached
  /-- `UpdateLargest` returned. -/
  | counted
  /-- `CopyDownstream` returned; these subscriptions are still to be asked. -/
  | offering (subs : List SubID)
deriving DecidableEq, Repr

namespace TrackEntry

variable {S : Type}

/-- One step of `handleDatagram`; `none` is its end. -/
def handleDatagram (e : TrackEntry S) (now : Nat) (d : ObjectDatagram) :
    DatagramPhase → TrackEntry S × Option DatagramPhase
  | .received =>
    match e.claimDelivered now d.info with
    | (e, _, some _) => (e, none)
    | (e, .fresh, none) => (e, some .fresh)
    | (e, _, none) => (e, some .redundant)
  | .redundant =>
    let (cache, err) := checkDuplicate e.cache now
      { d.cached with maxCacheDuration := 0, hasMaxCacheDuration := false }
    ({ e with cache := cache }, if err.isSome then none else some .recording)
  | .recording => ((e.call now (.recordDuplicate d.info)).1, none)
  | .fresh => ({ e with cache := e.cache.put now d.cached }, some .cached)
  | .cached => (e.updateLargest ⟨d.groupID, d.objectID⟩, some .counted)
  | .counted => (e, some (.offering e.downstream))
  | .offering [] => (e, none)
  | .offering (_ :: rest) => (e, some (.offering rest))

/-- Of the entry it changes the ledger, the cache and the Largest Object. -/
theorem handleDatagram_eq (e : TrackEntry S) (now : Nat) (d : ObjectDatagram) (p : DatagramPhase) :
    ∃ call cache largest known, (e.handleDatagram now d p).1 =
      { e.after call cache with largestObject := largest, hasLargestObject := known } := by
  cases p with
  | received =>
    obtain ⟨cache, h⟩ := e.call_eq now (.claimDelivered d.info)
    refine ⟨some (.claimDelivered d.info), cache, e.largestObject, e.hasLargestObject, ?_⟩
    simp only [handleDatagram, claimDelivered, h]
    split <;> next heq => exact (congrArg Prod.fst heq).symm
  | redundant =>
    exact ⟨none, (e.handleDatagram now d .redundant).1.cache, e.largestObject,
      e.hasLargestObject, rfl⟩
  | recording =>
    obtain ⟨cache, h⟩ := e.call_eq now (.recordDuplicate d.info)
    exact ⟨some (.recordDuplicate d.info), cache, e.largestObject, e.hasLargestObject, h⟩
  | fresh => exact ⟨none, e.cache.put now d.cached, e.largestObject, e.hasLargestObject, rfl⟩
  | cached =>
    obtain ⟨largest, known, h⟩ := e.updateLargest_eq ⟨d.groupID, d.objectID⟩
    exact ⟨none, e.cache, largest, known, h⟩
  | counted => exact ⟨none, e.cache, e.largestObject, e.hasLargestObject, rfl⟩
  | offering subs =>
    cases subs <;> exact ⟨none, e.cache, e.largestObject, e.hasLargestObject, rfl⟩

theorem handleDatagram_offering {e : TrackEntry S} {now : Nat} {d : ObjectDatagram}
    {p : DatagramPhase} {subs : List SubID}
    (h : (e.handleDatagram now d p).2 = some (.offering subs)) :
    subs = e.downstream ∨ ∃ sub, p = .offering (sub :: subs) := by
  cases p with
  | counted =>
    cases h
    exact .inl rfl
  | offering rest =>
    cases rest with
    | nil => cases h
    | cons sub rest =>
      cases h
      exact .inr ⟨sub, rfl⟩
  | received =>
    simp only [handleDatagram] at h
    split at h <;> cases h
  | redundant =>
    simp only [handleDatagram] at h
    split_ifs at h
    cases h
  | _ => cases h

end TrackEntry
end MoqGo.Relay
