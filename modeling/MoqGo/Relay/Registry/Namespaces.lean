import MoqGo.Discovery.Memory
import MoqGo.Relay.Registry.Subscriber

/-!
# The namespace registry (`pkg/relay/internal/registry/namespace.go`, `namespace_state.go`)

The registry knows who publishes which namespaces, on this relay (`publishers`) and on others
(`remote`), and who subscribes to which prefixes. A namespace's *sources* are its announced
publishers here and the relays that advertise it. Each operation runs under the registry's lock,
so it is one step; what it queues for a subscriber is queued in that step, and the writers of the
queues take their steps in between.

The maps are keyed by the namespace itself: the source keys them by its encoding, which
determines it. Where the source walks a map, the order is an argument. A subscription's entry is
a reference (`EntryID`) into the heap `subs`, so that an entry lives on when it is unregistered.

The field `calls` is written and never read: the calls to Discovery.
-/

namespace MoqGo.Relay

open Wire Discovery

/-- `*PublisherEntry`. -/
abbrev PubID := Nat

/-- `*SubscriberEntry`. -/
abbrev EntryID := Nat

/-- `PublisherEntry`, with its reference. -/
structure PublisherEntry where
  ref : PubID
  ns : TrackNamespace
  session : SessionID
  announced : Bool := false
  seq : UInt64 := 0
deriving DecidableEq, Repr

/-- A call to the Discovery store about a namespace. -/
inductive NamespaceCall
  | publishNamespace (ns : TrackNamespace)
  | unpublishNamespace (ns : TrackNamespace)
deriving DecidableEq, Repr

/-- The time at which an entry's `n`-th message is queued. -/
abbrev Clock := EntryID → Nat → Nat

/-- `NamespaceRegistry`, with the heap its subscribers refer to. -/
structure NamespaceRegistry where
  publishers : List PublisherEntry := []
  subscribers : List EntryID := []
  subs : EntryID → SubscriberEntry := fun _ =>
    { nsPrefix := [], session := 0, wantsTracks := false }
  pubCount : GoMap TrackNamespace Nat := ∅
  seq : UInt64 := 0
  remote : GoMap TrackNamespace (List Addr) := ∅
  calls : List NamespaceCall := []

namespace NamespaceRegistry

/-! ## Sources -/

def relays (r : NamespaceRegistry) (ns : TrackNamespace) : List Addr :=
  (r.remote.lookup ns).getD []

/-- All of `remote`. -/
def remotePairs (r : NamespaceRegistry) : List (TrackNamespace × Addr) :=
  r.remote.entries.flatMap fun rn => rn.2.map fun addr => (rn.1, addr)

/-- `namespaceSources`. The names it returns beside the counts are the counts' keys. -/
def namespaceSources (r : NamespaceRegistry) (pfx : TrackNamespace) :
    GoMap TrackNamespace Nat :=
  let counts := r.publishers.foldl
    (fun counts p =>
      if p.announced && p.ns.hasPrefix pfx then Lib.more counts p.ns 1 else counts) ∅
  r.remote.entries.foldl
    (fun counts rn =>
      if TrackNamespace.hasPrefix rn.1 pfx then Lib.more counts rn.1 rn.2.length else counts)
    counts

def eachSubscriber (r : NamespaceRegistry) (f : EntryID → SubscriberEntry → SubscriberEntry) :
    NamespaceRegistry :=
  { r with subs := fun s => if s ∈ r.subscribers then f s (r.subs s) else r.subs s }

/-- `addSourceLocked`. -/
def addSourceLocked (r : NamespaceRegistry) (clock : Clock) (ns : TrackNamespace) :
    NamespaceRegistry :=
  r.eachSubscriber fun s e => e.addSource (clock s) ns

/-- `removeSourceLocked`. -/
def removeSourceLocked (r : NamespaceRegistry) (clock : Clock) (ns : TrackNamespace) :
    NamespaceRegistry :=
  r.eachSubscriber fun s e => e.removeSource (clock s) ns

/-! ## Publishers -/

/-- `RegisterPublisher`, where `e` is the new entry. -/
def registerPublisher (r : NamespaceRegistry) (e : PubID) (ns : TrackNamespace)
    (session : SessionID) : NamespaceRegistry :=
  let pubCount := Lib.more r.pubCount ns 1
  { r with
    seq := r.seq + 1
    publishers := r.publishers ++ [{ ref := e, ns := ns, session := session, seq := r.seq + 1 }]
    pubCount := pubCount
    calls := if pubCount.lookup ns = some 1 then r.calls ++ [.publishNamespace ns] else r.calls }

/-- `AnnouncePublisher`. -/
def announcePublisher (r : NamespaceRegistry) (clock : Clock) (e : PubID) : NamespaceRegistry :=
  match r.publishers.find? (·.ref == e) with
  | none => r
  | some p =>
    let publishers := r.publishers.map fun q =>
      if q.ref = e then { q with announced := true } else q
    { r with publishers := publishers }.addSourceLocked clock p.ns

/-- A publisher that goes: its source, if it was announced, and its reference of the namespace.
    Reports whether that was the last. -/
def releasePublisher (r : NamespaceRegistry) (clock : Clock) (p : PublisherEntry) :
    NamespaceRegistry × Bool :=
  let r := if p.announced then r.removeSourceLocked clock p.ns else r
  let pubCount := Lib.less r.pubCount p.ns
  ({ r with pubCount := pubCount }, (pubCount.lookup p.ns).isNone)

/-- `unpublishNamespaceFromDiscovery`. -/
def unpublishNamespaceFromDiscovery (r : NamespaceRegistry) (ns : TrackNamespace) :
    NamespaceRegistry :=
  { r with calls := r.calls ++ [.unpublishNamespace ns] }

/-- `UnregisterPublisher`. -/
def unregisterPublisher (r : NamespaceRegistry) (clock : Clock) (e : PubID) : NamespaceRegistry :=
  match r.publishers.find? (·.ref == e) with
  | none => r
  | some p =>
    let (r, last) :=
      { r with publishers := r.publishers.filter (·.ref != e) }.releasePublisher clock p
    if last then r.unpublishNamespaceFromDiscovery p.ns else r

/-! ## Other relays -/

def addRelay (r : NamespaceRegistry) (clock : Clock) (ns : TrackNamespace) (addr : Addr) :
    NamespaceRegistry :=
  { r with remote := r.remote.insert ns (r.relays ns ++ [addr]) }.addSourceLocked clock ns

/-- A relay stops advertising a namespace. -/
def dropRelay (r : NamespaceRegistry) (clock : Clock) (ns : TrackNamespace) (addr : Addr) :
    NamespaceRegistry :=
  let left := (r.relays ns).erase addr
  let remote := if left = [] then r.remote.erase ns else r.remote.insert ns left
  { r with remote := remote }.removeSourceLocked clock ns

/-- `RemoteNamespace`. -/
def remoteNamespace (r : NamespaceRegistry) (clock : Clock) (ns : TrackNamespace) (addr : Addr)
    (published : Bool) : NamespaceRegistry :=
  if published then
    if addr ∈ r.relays ns then r else r.addRelay clock ns addr
  else
    if addr ∈ r.relays ns then r.dropRelay clock ns addr else r

/-- `ReplaceRemote`'s first loop. -/
def addRemote (r : NamespaceRegistry) (clock : Clock) (ads : List (TrackNamespace × Addr)) :
    NamespaceRegistry :=
  ads.foldl (fun r ad => if ad.2 ∈ r.relays ad.1 then r else r.addRelay clock ad.1 ad.2) r

/-- `ReplaceRemote`'s second loop, where `drops` are the pairs it does not keep. -/
def dropRemote (r : NamespaceRegistry) (clock : Clock) (drops : List (TrackNamespace × Addr)) :
    NamespaceRegistry :=
  drops.foldl (fun r ad => r.dropRelay clock ad.1 ad.2) r

/-- `ReplaceRemote`. -/
def replaceRemote (r : NamespaceRegistry) (clock : Clock)
    (ads drops : List (TrackNamespace × Addr)) : NamespaceRegistry :=
  (r.addRemote clock ads).dropRemote clock drops

/-! ## Subscribers -/

/-- `RegisterSubscriber`'s walk of the publishers: the names announced in their order, and the
    names still pending behind it. -/
def seedLocals : List PublisherEntry → List TrackNamespace →
    List TrackNamespace × List TrackNamespace
  | [], names => ([], names)
  | p :: ps, names =>
    if p.ns ∈ names && p.announced then
      ((p.ns :: (seedLocals ps (names.erase p.ns)).1), (seedLocals ps (names.erase p.ns)).2)
    else seedLocals ps names

/-- `RegisterSubscriber`, where `s` is the new entry and `rest` what remains of the names after
    the publishers'. -/
def registerSubscriber (r : NamespaceRegistry) (clock : Clock) (s : EntryID)
    (pfx : TrackNamespace) (session : SessionID) (wantsTracks : Bool)
    (rest : List TrackNamespace) : NamespaceRegistry :=
  let entry : SubscriberEntry :=
    { nsPrefix := pfx, session := session, wantsTracks := wantsTracks }
  let counts := r.namespaceSources pfx
  let names := (seedLocals r.publishers counts.keys).1 ++ rest
  let entry :=
    if wantsTracks then entry
    else
      { entry with announced := counts }.enqueueAll (clock s)
        (names.map (namespaceMessage · pfx))
  { r with
    subscribers := r.subscribers ++ [s]
    subs := Function.update r.subs s entry }

/-- `UpdatePrefix`. -/
def updatePrefix (r : NamespaceRegistry) (clock : Clock) (s : EntryID) (pfx : TrackNamespace)
    (dones news : List TrackNamespace) : NamespaceRegistry :=
  let e := r.subs s
  let e := e.updatePrefix (clock s) pfx (r.namespaceSources pfx)
    (r.namespaceSources e.nsPrefix).keys dones news
  { r with subs := Function.update r.subs s e }

/-- `UnregisterSubscriber`. -/
def unregisterSubscriber (r : NamespaceRegistry) (s : EntryID) : NamespaceRegistry :=
  { r with subscribers := r.subscribers.filter (· != s) }

/-- `RemoveSession`'s loop over the session's publishers, which collects the namespaces left
    without one in `toUnadvertise`. -/
def releaseAll (clock : Clock) :
    List PublisherEntry → NamespaceRegistry → List TrackNamespace →
      NamespaceRegistry × List TrackNamespace
  | [], r, toUnadvertise => (r, toUnadvertise)
  | p :: ps, r, toUnadvertise =>
    let (r, last) := r.releasePublisher clock p
    releaseAll clock ps r (if last then toUnadvertise ++ [p.ns] else toUnadvertise)

/-- `RemoveSession`. -/
def removeSession (r : NamespaceRegistry) (clock : Clock) (session : SessionID) :
    NamespaceRegistry :=
  let (r', toUnadvertise) := releaseAll clock (r.publishers.filter (·.session == session)) r []
  { r' with
    publishers := r.publishers.filter (·.session != session)
    subscribers := r.subscribers.filter fun s => (r.subs s).session != session
    calls := r'.calls ++ toUnadvertise.map .unpublishNamespace }

/-- A message is queued on an entry's stream: `Enqueue` or, as the last, `Finish`. -/
def queue (r : NamespaceRegistry) (clock : Clock) (s : EntryID) (m : SubMessage) (last : Bool) :
    NamespaceRegistry :=
  let e := r.subs s
  let e := { e with toOutbox := e.toOutbox.push (clock s e.pushed.length) m last }
  { r with subs := Function.update r.subs s e }

/-- `PublishSkipped`. -/
def publishSkipped (r : NamespaceRegistry) (clock : Clock) (s : EntryID) (ns : TrackNamespace)
    (name : List UInt8) : NamespaceRegistry :=
  if ns.hasPrefix (r.subs s).nsPrefix then
    r.queue clock s (.publishSkipped (suffixAfter ns (r.subs s).nsPrefix) name) false
  else r

/-- The writer of an entry's queue takes a step. -/
def writer (r : NamespaceRegistry) (s : EntryID) (move : Outbox → Option Outbox) :
    Option NamespaceRegistry :=
  (move (r.subs s).toOutbox).map fun q =>
    { r with subs := Function.update r.subs s { r.subs s with toOutbox := q } }

/-! ## Steps -/

/-- An operation on the registry, with the walks of its maps. -/
inductive Op
  | registerPublisher (e : PubID) (ns : TrackNamespace) (session : SessionID)
  | announcePublisher (e : PubID)
  | unregisterPublisher (e : PubID)
  | remoteNamespace (ns : TrackNamespace) (addr : Addr) (published : Bool)
  | replaceRemote (ads : List NamespaceInfo) (adds drops : List (TrackNamespace × Addr))
  | registerSubscriber (s : EntryID) (pfx : TrackNamespace) (session : SessionID)
      (wantsTracks : Bool) (rest : List TrackNamespace)
  | updatePrefix (s : EntryID) (pfx : TrackNamespace) (dones news : List TrackNamespace)
  | enqueueOk (s : EntryID)
  | finish (s : EntryID)
  | publishSkipped (s : EntryID) (ns : TrackNamespace) (name : List UInt8)
  | unregisterSubscriber (s : EntryID)
  | removeSession (session : SessionID)
  | take (s : EntryID)
  | wrote (s : EntryID) (ok : Bool)
deriving DecidableEq, Repr

/-- The step, where the walks are walks of the maps, new entries are new, and a publisher is
    announced once. -/
def step (r : NamespaceRegistry) (a : Clock × Op) : Option NamespaceRegistry :=
  match a.2 with
  | .registerPublisher e ns session =>
    if ∀ p ∈ r.publishers, p.ref ≠ e then some (r.registerPublisher e ns session) else none
  | .announcePublisher e =>
    if ∀ p ∈ r.publishers, p.ref = e → p.announced = false then
      some (r.announcePublisher a.1 e)
    else none
  | .unregisterPublisher e => some (r.unregisterPublisher a.1 e)
  | .remoteNamespace ns addr published => some (r.remoteNamespace a.1 ns addr published)
  | .replaceRemote ads adds drops =>
    if adds.Perm (ads.map NamespaceInfo.key) ∧
        drops.Perm ((r.addRemote a.1 adds).remotePairs.filter (· ∉ adds)) then
      some (r.replaceRemote a.1 adds drops)
    else none
  | .registerSubscriber s pfx session wantsTracks rest =>
    if s ∉ r.subscribers ∧
        rest.Perm (seedLocals r.publishers (r.namespaceSources pfx).keys).2 then
      some (r.registerSubscriber a.1 s pfx session wantsTracks rest)
    else none
  | .updatePrefix s pfx dones news =>
    if dones.Perm ((r.subs s).announced.keys.filter (· ∉ (r.namespaceSources pfx).keys)) ∧
        news.Perm ((r.namespaceSources pfx).keys.filter (· ∉ (r.subs s).announced.keys)) then
      some (r.updatePrefix a.1 s pfx dones news)
    else none
  | .enqueueOk s => some (r.queue a.1 s (.requestOk none) false)
  | .finish s => some (r.queue a.1 s .requestError true)
  | .publishSkipped s ns name => some (r.publishSkipped a.1 s ns name)
  | .unregisterSubscriber s => some (r.unregisterSubscriber s)
  | .removeSession session => some (r.removeSession a.1 session)
  | .take s => r.writer s Outbox.take
  | .wrote s ok => r.writer s (Outbox.wrote · ok)

/-- `NewNamespaceRegistry`. -/
def init : NamespaceRegistry := {}

end NamespaceRegistry
end MoqGo.Relay
