import MoqGo.Lib.Runs
import MoqGo.Relay.Cache
import MoqGo.Wire.Namespace

/-!
# The in-process Discovery store (`pkg/relay/discovery/memory.go`)

The store holds which relay advertises which tracks and namespaces, and tells its watchers of
each change. Both halves are the same machine, here a `Feed`: a map of advertisements and the
watches of it. A watch is a bounded channel that starts with the whole map, a marker behind it;
from then on every change is sent to every watch without blocking, and **a watch whose channel
is full is ended, never skipped**: the channel is closed, what it holds stays to be received.

Every method runs under the store's lock and is one operation here. The order in which a map is
walked is an argument.

The fields `opened`, `sent` and `offered` of a channel are written and never read: whether the
watch was ever opened, all that was ever sent on it, and all that it is owed, the snapshot it
started with and every change since.
-/

namespace MoqGo.Discovery

open Wire Relay

/-- A relay's address. -/
abbrev Addr := String

/-- One watch, `*watcher`. -/
abbrev WatchID := Nat

/-- `TrackEvent` and `NamespaceEvent`. -/
inductive Event (ι : Type)
  | publish (info : ι)
  | unpublish (info : ι)
  | snapshotDone
deriving DecidableEq, Repr

/-- The channel of a `watcher`. -/
structure Chan (ι : Type) where
  buf : List (Event ι) := []
  cap : Nat := 0
  closed : Bool := false
  opened : Bool := false
  sent : List (Event ι) := []
  offered : List (Event ι) := []
deriving DecidableEq, Repr

namespace Chan

variable {ι : Type}

/-- There is no room for another event. -/
def full (c : Chan ι) : Bool := c.cap ≤ c.buf.length

/-- `end`. -/
def end_ (c : Chan ι) : Chan ι := { c with closed := true }

/-- `fanout`'s non-blocking send, which ends the watch where it would block. -/
def send (c : Chan ι) (ev : Event ι) : Chan ι :=
  if c.full then c.end_ else { c with buf := c.buf ++ [ev], sent := c.sent ++ [ev] }

end Chan

/-- One half of the store: its advertisements by key, and its watches. -/
structure Feed (κ ι : Type) [DecidableEq κ] where
  entries : GoMap κ ι := ∅
  watch : List WatchID := []
  chans : WatchID → Chan ι := fun _ => {}

namespace Feed

variable {κ ι : Type} [DecidableEq κ]

/-- `fanout`. -/
def fanout (f : Feed κ ι) (ev : Event ι) : Feed κ ι :=
  { f with
    watch := f.watch.filter fun w => !(f.chans w).full
    chans := fun w =>
      let c := if w ∈ f.watch then (f.chans w).send ev else f.chans w
      { c with offered := c.offered ++ [ev] } }

def publish (f : Feed κ ι) (key : κ) (info : ι) : Feed κ ι :=
  { f with entries := f.entries.insert key info }.fanout (.publish info)

/-- The entry is deleted and its removal sent, if it is there. -/
def unpublish (f : Feed κ ι) (key : κ) : Feed κ ι :=
  match f.entries.lookup key with
  | none => f
  | some info => { f with entries := f.entries.erase key }.fanout (.unpublish info)

/-- `Withdraw`'s loop, over the keys of one address. -/
def unpublishAll (f : Feed κ ι) (keys : List κ) : Feed κ ι := keys.foldl unpublish f

/-- `WatchTracks` and `WatchNamespaces`, with the snapshot in the order of `infos`. -/
def open_ (f : Feed κ ι) (w : WatchID) (infos : List ι) (bufferSize : Nat) : Feed κ ι :=
  let events := infos.map .publish ++ [.snapshotDone]
  { f with
    watch := f.watch ++ [w]
    chans := Function.update f.chans w
      { buf := events, cap := infos.length + 1 + bufferSize, opened := true, sent := events,
        offered := events } }

/-- `watchLifecycle`, when the watch's context is cancelled. -/
def cancel (f : Feed κ ι) (w : WatchID) : Feed κ ι :=
  if w ∈ f.watch then
    { f with
      watch := f.watch.erase w
      chans := Function.update f.chans w (f.chans w).end_ }
  else f

/-- `Close`, for the half's watches. -/
def close (f : Feed κ ι) : Feed κ ι :=
  { f with
    watch := []
    chans := fun w => if w ∈ f.watch then (f.chans w).end_ else f.chans w }

/-- The next event of a watch is received. -/
def receive (f : Feed κ ι) (w : WatchID) : Option (Event ι × Feed κ ι) :=
  match (f.chans w).buf with
  | [] => none
  | ev :: rest =>
    some (ev, { f with chans := Function.update f.chans w { f.chans w with buf := rest } })

end Feed

/-- `TrackInfo`. A zero `publishedAt` is stamped when the entry is stored. -/
structure TrackInfo (K : Type) where
  trackKey : K
  properties : List UInt8 := []
  relayAddr : Addr
  publishedAt : Nat := 0
deriving DecidableEq, Repr

/-- `NamespaceInfo`. -/
structure NamespaceInfo where
  nsPrefix : TrackNamespace
  relayAddr : Addr
  publishedAt : Nat := 0
deriving DecidableEq, Repr

/-- `trackEntryKey`. -/
def TrackInfo.key {K : Type} (info : TrackInfo K) : K × Addr := (info.trackKey, info.relayAddr)

/-- `namespaceEntryKey`. -/
def NamespaceInfo.key (info : NamespaceInfo) : TrackNamespace × Addr :=
  (info.nsPrefix, info.relayAddr)

/-- Why a method of the store fails. -/
inductive StoreError
  | closed
  | withdrawn
deriving DecidableEq, Repr

def defaultWatchBufferSize : Nat := 32

/-- `MemoryStore`. -/
structure MemoryStore (K : Type) [DecidableEq K] where
  tracks : Feed (K × Addr) (TrackInfo K) := {}
  namespaces : Feed (TrackNamespace × Addr) NamespaceInfo := {}
  closed : Bool := false
  withdrawn : List Addr := []
  bufferSize : Nat := defaultWatchBufferSize

namespace MemoryStore

variable {K : Type} [DecidableEq K]

/-- `WithWatchBufferSize`. -/
def withWatchBufferSize (s : MemoryStore K) (n : Int) : MemoryStore K :=
  if 0 < n then { s with bufferSize := n.toNat } else s

/-- What the Publish methods check before they store. -/
def publishable (s : MemoryStore K) (addr : Addr) : Except StoreError Unit :=
  if s.closed then .error .closed
  else if addr ∈ s.withdrawn then .error .withdrawn
  else .ok ()

/-- `PublishTrack`, at `now`. -/
def publishTrack (s : MemoryStore K) (info : TrackInfo K) (now : Nat) :
    Except StoreError (MemoryStore K) := do
  s.publishable info.relayAddr
  let info := if info.publishedAt = 0 then { info with publishedAt := now } else info
  return { s with tracks := s.tracks.publish info.key info }

/-- `UnpublishTrack`. -/
def unpublishTrack (s : MemoryStore K) (key : K) (relayAddr : Addr) :
    Except StoreError (MemoryStore K) :=
  if s.closed then .error .closed
  else .ok { s with tracks := s.tracks.unpublish (key, relayAddr) }

/-- `PublishNamespace`, at `now`. -/
def publishNamespace (s : MemoryStore K) (info : NamespaceInfo) (now : Nat) :
    Except StoreError (MemoryStore K) := do
  s.publishable info.relayAddr
  let info := if info.publishedAt = 0 then { info with publishedAt := now } else info
  return { s with namespaces := s.namespaces.publish info.key info }

/-- `UnpublishNamespace`. -/
def unpublishNamespace (s : MemoryStore K) (pfx : TrackNamespace) (relayAddr : Addr) :
    Except StoreError (MemoryStore K) :=
  if s.closed then .error .closed
  else .ok { s with namespaces := s.namespaces.unpublish (pfx, relayAddr) }

/-- `Withdraw`, which meets the address's entries in the orders given. -/
def withdraw (s : MemoryStore K) (relayAddr : Addr) (trackKeys : List (K × Addr))
    (nsKeys : List (TrackNamespace × Addr)) : Except StoreError (MemoryStore K) :=
  if s.closed then .error .closed
  else
    .ok { s with
      withdrawn := relayAddr :: s.withdrawn
      tracks := s.tracks.unpublishAll trackKeys
      namespaces := s.namespaces.unpublishAll nsKeys }

/-- `WatchNamespaces`. -/
def watchNamespaces (s : MemoryStore K) (w : WatchID) (infos : List NamespaceInfo) :
    Except StoreError (MemoryStore K) :=
  if s.closed then .error .closed
  else .ok { s with namespaces := s.namespaces.open_ w infos s.bufferSize }

/-- `WatchTracks`. -/
def watchTracks (s : MemoryStore K) (w : WatchID) (infos : List (TrackInfo K)) :
    Except StoreError (MemoryStore K) :=
  if s.closed then .error .closed
  else .ok { s with tracks := s.tracks.open_ w infos s.bufferSize }

/-- `Close`. -/
def close (s : MemoryStore K) : MemoryStore K :=
  if s.closed then s
  else { s with closed := true, tracks := s.tracks.close, namespaces := s.namespaces.close }

/-- A call on the store, a read of a watch, or the end of a watch's context. -/
inductive Op (K : Type)
  | publishTrack (info : TrackInfo K) (now : Nat)
  | unpublishTrack (key : K) (relayAddr : Addr)
  | publishNamespace (info : NamespaceInfo) (now : Nat)
  | unpublishNamespace (pfx : TrackNamespace) (relayAddr : Addr)
  | withdraw (relayAddr : Addr) (trackKeys : List (K × Addr))
    (nsKeys : List (TrackNamespace × Addr))
  | watchTracks (w : WatchID) (infos : List (TrackInfo K))
  | watchNamespaces (w : WatchID) (infos : List NamespaceInfo)
  | receiveTrack (w : WatchID)
  | receiveNamespace (w : WatchID)
  | cancelTracks (w : WatchID)
  | cancelNamespaces (w : WatchID)
  | close

def settle (s : MemoryStore K) : Except StoreError (MemoryStore K) → MemoryStore K
  | .ok s' => s'
  | .error _ => s

/-- The step, where the walks are walks of the maps and a new watch is new. -/
def step (s : MemoryStore K) : Op K → Option (MemoryStore K)
  | .publishTrack info now => some (s.settle (s.publishTrack info now))
  | .unpublishTrack key relayAddr => some (s.settle (s.unpublishTrack key relayAddr))
  | .publishNamespace info now => some (s.settle (s.publishNamespace info now))
  | .unpublishNamespace pfx relayAddr => some (s.settle (s.unpublishNamespace pfx relayAddr))
  | .withdraw relayAddr trackKeys nsKeys =>
    if trackKeys.Perm (s.tracks.entries.keys.filter (·.2 = relayAddr)) ∧
        nsKeys.Perm (s.namespaces.entries.keys.filter (·.2 = relayAddr)) then
      some (s.settle (s.withdraw relayAddr trackKeys nsKeys))
    else none
  | .watchTracks w infos =>
    if infos.Perm (s.tracks.entries.entries.map (·.2)) ∧ (s.tracks.chans w).opened = false then
      some (s.settle (s.watchTracks w infos))
    else none
  | .watchNamespaces w infos =>
    if infos.Perm (s.namespaces.entries.entries.map (·.2)) ∧
        (s.namespaces.chans w).opened = false then
      some (s.settle (s.watchNamespaces w infos))
    else none
  | .receiveTrack w => (s.tracks.receive w).map fun x => { s with tracks := x.2 }
  | .receiveNamespace w => (s.namespaces.receive w).map fun x => { s with namespaces := x.2 }
  | .cancelTracks w => some { s with tracks := s.tracks.cancel w }
  | .cancelNamespaces w => some { s with namespaces := s.namespaces.cancel w }
  | .close => some s.close

/-- `NewMemoryStore`, with `WithWatchBufferSize n`. -/
def new (n : Int) : MemoryStore K := ({} : MemoryStore K).withWatchBufferSize n

end MemoryStore
end MoqGo.Discovery
