import MoqGo.Discovery.Gapless
import MoqGo.Relay.Registry.Exact

/-!
# The relay's namespace watch (`pkg/relay/relay_namespace_watch.go`)

One goroutine of the relay consumes watches of the Discovery store's namespaces, a new one
whenever a channel was closed, and writes what other relays advertise into the registry. A
watch's snapshot is collected first and applied as a whole, when its marker is read; from then on
each event is applied as it is read. The relay's own advertisements are skipped.

The consumer composed with the store and the registry is one state here; everything else may
happen in between: calls on the store by any relay, other watches, operations on the registry.
**After the marker, `remote` is the replay of what was read** (`Follows.synced`), for the snapshot
replaces whatever an earlier watch left. Since a living watch is gapless, a consumer with nothing
left to read has the store's records of the other relays.

The fields `seen` and `atOpen` are written and never read: the events read from the watch, and
`remote` as it was when the watch was opened.
-/

namespace MoqGo.Relay

open Wire Discovery List

/-- The consumer, `runNamespaceWatch`, with what it works on. `watch` is none between two
    watches, `own` is the relay's own address. -/
structure NamespaceWatch (K : Type) [DecidableEq K] where
  store : MemoryStore K
  r : NamespaceRegistry
  own : Addr
  watch : Option WatchID := none
  snapshot : List NamespaceInfo := []
  synced : Bool := false
  seen : List (Discovery.Event NamespaceInfo) := []
  atOpen : GoMap TrackNamespace (List Addr) := ∅

def NamespaceRegistry.Op.isLocal : NamespaceRegistry.Op → Bool
  | .remoteNamespace _ _ _ | .replaceRemote _ _ _ => false
  | _ => true

/-- A call that others may make on the store: they neither read nor cancel the watch `w`. -/
def spares {K : Type} (w : Option WatchID) : MemoryStore.Op K → Bool
  | .receiveNamespace w' | .cancelNamespaces w' => w != some w'
  | _ => true

namespace NamespaceWatch

variable {K : Type} [DecidableEq K]

/-- `forwardNamespaceEvent`. -/
def forwardNamespaceEvent (own : Addr) (clock : Clock) (r : NamespaceRegistry) :
    Discovery.Event NamespaceInfo → NamespaceRegistry
  | .publish info =>
    if info.relayAddr = own then r
    else r.remoteNamespace clock info.nsPrefix info.relayAddr true
  | .unpublish info =>
    if info.relayAddr = own then r
    else r.remoteNamespace clock info.nsPrefix info.relayAddr false
  | .snapshotDone => r

/-- `consumeNamespaceWatch`'s treatment of an event. `adds` and `drops` are the walks of
    `ReplaceRemote`, for the event that ends the snapshot. -/
def consume (s : NamespaceWatch K) (clock : Clock) (adds drops : List (TrackNamespace × Addr))
    (ev : Discovery.Event NamespaceInfo) : Option (NamespaceWatch K) :=
  if s.synced then some { s with r := forwardNamespaceEvent s.own clock s.r ev }
  else
    match ev with
    | .snapshotDone =>
      (s.r.step (clock, .replaceRemote s.snapshot adds drops)).map fun r =>
        { s with r := r, snapshot := [], synced := true }
    | .publish info =>
      if info.relayAddr ≠ s.own then some { s with snapshot := s.snapshot ++ [info] } else some s
    | .unpublish _ => some s

inductive Act (K : Type)
  | store (op : MemoryStore.Op K)
  | registry (clock : Clock) (op : NamespaceRegistry.Op)
  | watchNamespaces (w : WatchID) (infos : List NamespaceInfo)
  | receive (clock : Clock) (adds drops : List (TrackNamespace × Addr))
  | channelClosed

def step (s : NamespaceWatch K) : Act K → Option (NamespaceWatch K)
  | .store op =>
    if spares s.watch op then (s.store.step op).map fun store => { s with store := store }
    else none
  | .registry clock op =>
    if op.isLocal then (s.r.step (clock, op)).map fun r => { s with r := r } else none
  | .watchNamespaces w infos =>
    -- a closed store refuses the watch, and `runNamespaceWatch` returns
    if s.watch = none ∧ s.store.closed = false then
      (s.store.step (.watchNamespaces w infos)).map fun store =>
        { s with
          store := store, watch := some w, snapshot := [], synced := false, seen := []
          atOpen := s.r.remote }
    else none
  | .receive clock adds drops =>
    match s.watch with
    | none => none
    | some w =>
      match s.store.namespaces.receive w with
      | none => none
      | some (ev, namespaces) =>
        consume
          { s with
            store := { s.store with namespaces := namespaces }
            seen := s.seen ++ [ev] } clock adds drops ev
  | .channelClosed =>
    match s.watch with
    | none => none
    | some w =>
      if (s.store.namespaces.chans w).buf = [] ∧ (s.store.namespaces.chans w).closed = true then
        some { s with watch := none }
      else none

/-- A relay that starts on a new store. -/
def init (n : Int) (own : Addr) : NamespaceWatch K :=
  { store := .new n, r := .init, own := own }

/-- The watch the store still serves. A watch ends when its channel is closed, though what the
    channel holds is still received. -/
def current (s : NamespaceWatch K) : Option WatchID :=
  s.watch.filter fun w => !(s.store.namespaces.chans w).closed

end NamespaceWatch

/-! ## What the registry makes of it -/

namespace NamespaceRegistry

variable {r : NamespaceRegistry} {clock : Clock} {ad x : TrackNamespace × Addr}
  {drops : List (TrackNamespace × Addr)}

theorem mem_remotePairs_addRelay :
    x ∈ (r.addRelay clock ad.1 ad.2).remotePairs ↔ x ∈ r.remotePairs ∨ x = ad := by
  rw [mem_remotePairs, mem_remotePairs, relays_addRelay, Prod.ext_iff]
  by_cases hns : x.1 = ad.1
  · rw [if_pos hns, hns, mem_append, mem_singleton]
    simp
  · simp [hns]

theorem mem_remotePairs_dropRelay (h : r.RelaysOk) :
    x ∈ (r.dropRelay clock ad.1 ad.2).remotePairs ↔ x ∈ r.remotePairs ∧ x ≠ ad := by
  rw [mem_remotePairs, mem_remotePairs, mem_relays_dropRelay h]

theorem mem_remotePairs_addRemote {ads : List (TrackNamespace × Addr)} :
    ∀ {r : NamespaceRegistry} {x : TrackNamespace × Addr},
      x ∈ (r.addRemote clock ads).remotePairs ↔ x ∈ r.remotePairs ∨ x ∈ ads := by
  induction ads with
  | nil => simp [addRemote]
  | cons ad ads ih =>
    intro r x
    have hstep : x ∈ (if ad.2 ∈ r.relays ad.1 then r
        else r.addRelay clock ad.1 ad.2).remotePairs ↔ x ∈ r.remotePairs ∨ x = ad := by
      split
      · next hin =>
        have had : ad ∈ r.remotePairs := mem_remotePairs.mpr hin
        exact ⟨.inl, fun h => h.elim id fun h => h ▸ had⟩
      · exact mem_remotePairs_addRelay
    show x ∈ (addRemote (if ad.2 ∈ r.relays ad.1 then r
      else r.addRelay clock ad.1 ad.2) clock ads).remotePairs ↔ _
    rw [ih, hstep, mem_cons, or_assoc]

theorem mem_remotePairs_dropRemote :
    ∀ {r : NamespaceRegistry} {x : TrackNamespace × Addr}, r.RelaysOk →
      (x ∈ (r.dropRemote clock drops).remotePairs ↔ x ∈ r.remotePairs ∧ x ∉ drops) := by
  induction drops with
  | nil => simp [dropRemote]
  | cons ad drops ih =>
    intro r x h
    show x ∈ (dropRemote (r.dropRelay clock ad.1 ad.2) clock drops).remotePairs ↔ _
    rw [ih (h.dropRelay clock ad.1 ad.2), mem_remotePairs_dropRelay h, mem_cons, not_or,
      and_assoc]

theorem mem_remotePairs_replaceRemote {r' : NamespaceRegistry} {ads : List NamespaceInfo}
    {adds : List (TrackNamespace × Addr)} (h : r.Sound)
    (hs : r.step (clock, .replaceRemote ads adds drops) = some r') :
    x ∈ r'.remotePairs ↔ x ∈ ads.map NamespaceInfo.key := by
  obtain ⟨⟨hadds, hdrops⟩, rfl⟩ := Lib.guard_iff.mp hs
  have hok : (r.addRemote clock adds).RelaysOk := (h.addRemote).relaysOk
  rw [replaceRemote, mem_remotePairs_dropRemote hok, mem_remotePairs_addRemote, hdrops.mem_iff,
    mem_filter, mem_remotePairs_addRemote, ← hadds.mem_iff, decide_eq_true_iff]
  tauto

theorem mem_remotePairs_published {ns : TrackNamespace} {addr : Addr} :
    x ∈ (r.remoteNamespace clock ns addr true).remotePairs ↔
      x ∈ r.remotePairs ∨ x = (ns, addr) := by
  simp only [remoteNamespace, if_true]
  split
  · next hm =>
    have hin : (ns, addr) ∈ r.remotePairs := mem_remotePairs.mpr hm
    exact ⟨.inl, fun hx => hx.elim id fun hx => hx ▸ hin⟩
  · exact @mem_remotePairs_addRelay r clock (ns, addr) x

theorem mem_remotePairs_unpublished (h : r.RelaysOk) {ns : TrackNamespace} {addr : Addr} :
    x ∈ (r.remoteNamespace clock ns addr false).remotePairs ↔
      x ∈ r.remotePairs ∧ x ≠ (ns, addr) := by
  simp only [remoteNamespace, Bool.false_eq_true, if_false]
  split
  · exact @mem_remotePairs_dropRelay r clock (ns, addr) x h
  · next hm =>
    refine ⟨fun hx => ⟨hx, ?_⟩, And.left⟩
    rintro rfl
    exact hm (mem_remotePairs.mp hx)

theorem step_remote {r' : NamespaceRegistry} {op : Op} (hop : op.isLocal = true)
    (h : r.step (clock, op) = some r') : r'.remote = r.remote := by
  cases op with
  | registerPublisher e ns session =>
    obtain ⟨-, rfl⟩ := Lib.guard_iff.mp h
    rfl
  | announcePublisher e =>
    obtain ⟨-, rfl⟩ := Lib.guard_iff.mp h
    unfold announcePublisher
    split <;> rfl
  | unregisterPublisher e =>
    cases h
    unfold unregisterPublisher
    split
    · rfl
    · next p _ =>
      have hrel := releasePublisher_remote
        { r with publishers := r.publishers.filter (·.ref != e) } clock p
      dsimp only
      split
      · exact hrel
      · exact hrel
  | remoteNamespace ns addr published => cases hop
  | replaceRemote ads adds drops => cases hop
  | registerSubscriber s pfx session wantsTracks rest =>
    obtain ⟨-, rfl⟩ := Lib.guard_iff.mp h
    rfl
  | updatePrefix s pfx dones news =>
    obtain ⟨-, rfl⟩ := Lib.guard_iff.mp h
    rfl
  | enqueueOk s =>
    cases h
    rfl
  | finish s =>
    cases h
    rfl
  | publishSkipped s ns name =>
    cases h
    unfold publishSkipped
    split <;> rfl
  | unregisterSubscriber s =>
    cases h
    rfl
  | removeSession session =>
    cases h
    exact (releaseAll_frame clock (r.publishers.filter (·.session == session)) r []).2.1
  | take s =>
    obtain ⟨q, -, rfl⟩ := Option.map_eq_some_iff.mp h
    rfl
  | wrote s ok =>
    obtain ⟨q, -, rfl⟩ := Option.map_eq_some_iff.mp h
    rfl

end NamespaceRegistry

/-! ## What the consumer has followed -/

namespace NamespaceWatch

variable {K : Type} [DecidableEq K] {clock : Clock} {s s' : NamespaceWatch K}
  {ev : Discovery.Event NamespaceInfo} {adds drops : List (TrackNamespace × Addr)}

theorem grows_step {s s' : MemoryStore K} {op : MemoryStore.Op K} {w : WatchID}
    (hop : spares (some w) op = true) (ho : (s.namespaces.chans w).opened = true)
    (h : s.step op = some s') : Feed.Grows w s.namespaces s'.namespaces := by
  cases op with
  | publishTrack info now =>
    cases h
    unfold MemoryStore.publishTrack
    cases s.publishable info.relayAddr <;> exact Feed.Grows.refl w _
  | unpublishTrack key relayAddr =>
    cases h
    unfold MemoryStore.unpublishTrack
    split <;> exact Feed.Grows.refl w _
  | publishNamespace info now =>
    cases h
    unfold MemoryStore.publishNamespace
    cases s.publishable info.relayAddr with
    | error e => exact Feed.Grows.refl w _
    | ok u => exact Feed.Grows.fanout w { s.namespaces with entries := _ } _
  | unpublishNamespace pfx relayAddr =>
    cases h
    unfold MemoryStore.unpublishNamespace
    split
    · exact Feed.Grows.refl w _
    · exact Feed.Grows.unpublish w _ _
  | withdraw addr trackKeys nsKeys =>
    obtain ⟨-, rfl⟩ := Lib.guard_iff.mp h
    unfold MemoryStore.withdraw
    split
    · exact Feed.Grows.refl w _
    · exact Feed.Grows.unpublishAll w nsKeys _
  | watchTracks w' infos =>
    obtain ⟨-, rfl⟩ := Lib.guard_iff.mp h
    unfold MemoryStore.watchTracks
    split <;> exact Feed.Grows.refl w _
  | watchNamespaces w' infos =>
    obtain ⟨⟨-, hnew⟩, rfl⟩ := Lib.guard_iff.mp h
    unfold MemoryStore.watchNamespaces
    split
    · exact Feed.Grows.refl w _
    · have hne : w ≠ w' := by
        rintro rfl
        rw [hnew] at ho
        cases ho
      exact Feed.Grows.of_chan (Function.update_of_ne hne ..)
  | receiveTrack w' =>
    obtain ⟨x, -, rfl⟩ := Option.map_eq_some_iff.mp h
    exact Feed.Grows.refl w _
  | receiveNamespace w' =>
    obtain ⟨⟨ev, f⟩, hr, rfl⟩ := Option.map_eq_some_iff.mp h
    have hne : w ≠ w' := fun heq => bne_iff_ne.mp hop (congrArg some heq)
    unfold Feed.receive at hr
    split at hr
    · cases hr
    · cases hr
      exact Feed.Grows.of_chan (Function.update_of_ne hne ..)
  | cancelTracks w' =>
    cases h
    exact Feed.Grows.refl w _
  | cancelNamespaces w' =>
    cases h
    have hne : w ≠ w' := fun heq => bne_iff_ne.mp hop (congrArg some heq)
    unfold Feed.cancel
    split
    · exact Feed.Grows.of_chan (Function.update_of_ne hne ..)
    · exact Feed.Grows.refl w _
  | close =>
    cases h
    unfold MemoryStore.close
    split
    · exact Feed.Grows.refl w _
    · refine Feed.Grows.of_end ?_
      show (if w ∈ s.namespaces.watch then _ else _) = _ ∨
        (if w ∈ s.namespaces.watch then _ else _) = _
      split
      · exact .inr rfl
      · exact .inl rfl

/-- **What the consumer has followed**: before the marker the snapshot so far, and `remote` as the
    watch found it; after it, `remote` is the replay of what was read. -/
structure Follows (s : NamespaceWatch K) : Prop where
  store : s.store.Sound
  registry : s.r.Sound
  reading : ∀ w, s.watch = some w → (s.store.namespaces.chans w).opened = true ∧
    (s.store.namespaces.chans w).sent = s.seen ++ (s.store.namespaces.chans w).buf
  unsynced : s.synced = false → s.r.remote = s.atOpen ∧
    ∃ infos : List NamespaceInfo, s.seen = infos.map .publish ∧
      s.snapshot = infos.filter (·.relayAddr ≠ s.own)
  synced : ∀ w, s.watch = some w → s.synced = true → ∀ ad, ad ∈ s.r.remotePairs ↔
    ad ∈ Feed.replayAll NamespaceInfo.key s.seen ∧ ad.2 ≠ s.own

theorem follows_init (n : Int) (own : Addr) : (init n own : NamespaceWatch K).Follows where
  store := MemoryStore.sound_new n
  registry := NamespaceRegistry.sound_init
  reading _ h := by cases h
  unsynced _ := ⟨rfl, [], rfl, rfl⟩
  synced _ h := by cases h

/-- An event applied to the registry is the event replayed, but for the relay's own. -/
theorem mem_forwardNamespaceEvent {r : NamespaceRegistry} {own : Addr}
    {m : GoMap (TrackNamespace × Addr) NamespaceInfo} (hr : r.RelaysOk)
    (h : ∀ ad, ad ∈ r.remotePairs ↔ ad ∈ m ∧ ad.2 ≠ own) (ev : Discovery.Event NamespaceInfo)
    (ad : TrackNamespace × Addr) : ad ∈ (forwardNamespaceEvent own clock r ev).remotePairs ↔
      ad ∈ Feed.replay NamespaceInfo.key m ev ∧ ad.2 ≠ own := by
  cases ev with
  | publish info =>
    have hmem : ad ∈ Feed.replay NamespaceInfo.key m (.publish info) ↔
        ad = info.key ∨ ad ∈ m := AList.mem_insert m
    rw [hmem]
    simp only [forwardNamespaceEvent]
    split
    · next hown =>
      rw [h]
      refine ⟨fun hx => ⟨.inr hx.1, hx.2⟩, fun hx => ⟨hx.1.resolve_left ?_, hx.2⟩⟩
      rintro rfl
      exact hx.2 hown
    · next hown =>
      rw [NamespaceRegistry.mem_remotePairs_published, h]
      constructor
      · rintro (hx | rfl)
        · exact ⟨.inr hx.1, hx.2⟩
        · exact ⟨.inl rfl, hown⟩
      · rintro ⟨rfl | hx, hne⟩
        · exact .inr rfl
        · exact .inl ⟨hx, hne⟩
  | unpublish info =>
    have hmem : ad ∈ Feed.replay NamespaceInfo.key m (.unpublish info) ↔
        ad ≠ info.key ∧ ad ∈ m := AList.mem_erase
    rw [hmem]
    simp only [forwardNamespaceEvent]
    split
    · next hown =>
      rw [h]
      refine ⟨fun hx => ⟨⟨?_, hx.1⟩, hx.2⟩, fun hx => ⟨hx.1.2, hx.2⟩⟩
      rintro rfl
      exact hx.2 hown
    · rw [NamespaceRegistry.mem_remotePairs_unpublished hr, h]
      tauto
  | snapshotDone => exact h ad

theorem sound_forwardNamespaceEvent {r : NamespaceRegistry} (h : r.Sound) (own : Addr)
    (clock : Clock) (ev : Discovery.Event NamespaceInfo) :
    (forwardNamespaceEvent own clock r ev).Sound := by
  cases ev with
  | publish info =>
    simp only [forwardNamespaceEvent]
    split
    · exact h
    · exact h.remoteNamespace clock _ _ true
  | unpublish info =>
    simp only [forwardNamespaceEvent]
    split
    · exact h
    · exact h.remoteNamespace clock _ _ false
  | snapshotDone => exact h

theorem Follows.forward (h : s.Follows) {w : WatchID} (hw : s.watch = some w)
    (hsync : s.synced = true) {namespaces : Feed (TrackNamespace × Addr) NamespaceInfo}
    (hstore : MemoryStore.Sound { s.store with namespaces := namespaces })
    (hread : (namespaces.chans w).opened = true ∧
      (namespaces.chans w).sent = s.seen ++ [ev] ++ (namespaces.chans w).buf) (clock : Clock) :
    Follows { s with
      store := { s.store with namespaces := namespaces }
      seen := s.seen ++ [ev]
      r := forwardNamespaceEvent s.own clock s.r ev } where
  store := hstore
  registry := sound_forwardNamespaceEvent h.registry s.own clock ev
  reading w' hw' := by
    cases hw.symm.trans hw'
    exact hread
  unsynced hun := by
    rw [hsync] at hun
    cases hun
  synced w' hw' _ ad := by
    rw [Feed.replayAll_concat]
    exact mem_forwardNamespaceEvent h.registry.relaysOk (h.synced w' hw' hsync) ev ad

theorem Follows.receive (h : s.Follows) (hs : s.step (.receive clock adds drops) = some s') :
    s'.Follows := by
  simp only [step] at hs
  split at hs
  · cases hs
  · next w hw =>
    split at hs
    · cases hs
    · next ev namespaces hr =>
      have hreceived : s.store.step (.receiveNamespace w) =
          some { s.store with namespaces := namespaces } := by
        simp [MemoryStore.step, hr]
      have hstore := h.store.step hreceived
      obtain ⟨hopen, hsent⟩ := h.reading w hw
      have hread : (namespaces.chans w).opened = true ∧
          (namespaces.chans w).sent = s.seen ++ [ev] ++ (namespaces.chans w).buf := by
        unfold Feed.receive at hr
        split at hr
        · cases hr
        · next x rest hbuf =>
          cases hr
          rw [hbuf] at hsent
          simp only [Function.update_self]
          refine ⟨hopen, ?_⟩
          rw [hsent, append_assoc, singleton_append]
      cases hsync : s.synced with
      | true =>
        simp only [consume, hsync, if_true] at hs
        cases hs
        have hf := h.forward hw hsync hstore hread clock
        simpa only [hsync] using hf
      | false =>
        obtain ⟨hremote, infos, hseen, hsnap⟩ := h.unsynced hsync
        have hshape := (hstore.namespaces.chans w).shaped hread.1
        rw [hread.2, hseen, append_assoc, singleton_append] at hshape
        rcases Feed.Shaped.next infos hshape with ⟨info, rfl⟩ | rfl
        · have hseen' : s.seen ++ [.publish info] = (infos ++ [info]).map .publish := by
            rw [hseen, map_append, map_singleton]
          have hnew : ∀ snapshot, snapshot = (infos ++ [info]).filter (·.relayAddr ≠ s.own) →
              Follows { s with
                store := { s.store with namespaces := namespaces }
                seen := s.seen ++ [.publish info]
                snapshot := snapshot } := by
            intro snapshot hsnapshot
            exact
              { store := hstore
                registry := h.registry
                reading := fun w' hw' => by
                  cases hw.symm.trans hw'
                  exact hread
                unsynced := fun _ => ⟨hremote, infos ++ [info], hseen', hsnapshot⟩
                synced := fun _ _ hs => by
                  rw [hsync] at hs
                  cases hs }
          simp only [consume, hsync, Bool.false_eq_true, if_false] at hs
          split at hs
          · next hne =>
            cases hs
            have hf := hnew (s.snapshot ++ [info]) (by
              rw [hsnap, filter_append, filter_cons_of_pos (by simpa using hne),
                filter_nil])
            simpa only [hsync] using hf
          · next hown =>
            cases hs
            have hf := hnew s.snapshot (by
              rw [hsnap, filter_append, filter_cons_of_neg (by simpa using hown),
                filter_nil, append_nil])
            simpa only [hsync] using hf
        · simp only [consume, hsync, Bool.false_eq_true, if_false] at hs
          obtain ⟨r, hr', rfl⟩ := Option.map_eq_some_iff.mp hs
          refine
            { store := hstore
              registry := h.registry.step hr'
              reading := fun w' hw' => ?_
              unsynced := fun hun => by cases hun
              synced := fun _ _ _ ad => ?_ }
          · cases hw.symm.trans hw'
            exact hread
          · rw [NamespaceRegistry.mem_remotePairs_replaceRemote h.registry hr',
              Feed.replayAll_concat, hseen]
            show _ ↔ ad ∈ Feed.replayAll NamespaceInfo.key (infos.map .publish) ∧ _
            rw [Feed.mem_replayAll_publishes, hsnap, mem_map, mem_map]
            constructor
            · rintro ⟨info, hin, rfl⟩
              obtain ⟨hin, hown⟩ := mem_filter.mp hin
              exact ⟨⟨info, hin, rfl⟩, of_decide_eq_true hown⟩
            · rintro ⟨⟨info, hin, rfl⟩, hown⟩
              exact ⟨info, mem_filter.mpr ⟨hin, decide_eq_true hown⟩, rfl⟩

theorem Follows.step {a : Act K} (h : s.Follows) (hs : s.step a = some s') : s'.Follows := by
  cases a with
  | store op =>
    simp only [NamespaceWatch.step, Option.ite_none_right_eq_some] at hs
    obtain ⟨hop, hs⟩ := hs
    obtain ⟨store, hstore, rfl⟩ := Option.map_eq_some_iff.mp hs
    refine { h with store := h.store.step hstore, reading := fun w hw => ?_ }
    obtain ⟨hopen, hsent⟩ := h.reading w hw
    have hw' : s.watch = some w := hw
    rw [hw'] at hop
    obtain ⟨ho, more, hsent', hbuf'⟩ := grows_step hop hopen hstore
    refine ⟨ho.trans hopen, ?_⟩
    rw [hsent', hbuf', hsent, append_assoc]
  | registry clock op =>
    simp only [NamespaceWatch.step, Option.ite_none_right_eq_some] at hs
    obtain ⟨hop, hs⟩ := hs
    obtain ⟨r, hr, rfl⟩ := Option.map_eq_some_iff.mp hs
    have hremote := NamespaceRegistry.step_remote hop hr
    refine
      { h with
        registry := h.registry.step hr
        unsynced := fun hun => ⟨hremote.trans (h.unsynced hun).1, (h.unsynced hun).2⟩
        synced := fun w hw hsync ad => ?_ }
    have hpairs : r.remotePairs = s.r.remotePairs := by
      rw [NamespaceRegistry.remotePairs, hremote, NamespaceRegistry.remotePairs]
    rw [hpairs]
    exact h.synced w hw hsync ad
  | watchNamespaces w infos =>
    simp only [NamespaceWatch.step, Option.ite_none_right_eq_some] at hs
    obtain ⟨⟨-, hopen⟩, hs⟩ := hs
    obtain ⟨store, hstore, rfl⟩ := Option.map_eq_some_iff.mp hs
    refine
      { store := h.store.step hstore
        registry := h.registry
        reading := fun w' hw' => ?_
        unsynced := fun _ => ⟨rfl, [], rfl, rfl⟩
        synced := fun _ _ hsync => by cases hsync }
    cases hw'
    obtain ⟨-, rfl⟩ := Lib.guard_iff.mp hstore
    simp only [MemoryStore.watchNamespaces, hopen, Bool.false_eq_true, if_false,
      MemoryStore.settle, Feed.open_, Function.update_self]
    exact ⟨trivial, rfl⟩
  | receive clock adds drops => exact h.receive hs
  | channelClosed =>
    simp only [NamespaceWatch.step] at hs
    split at hs
    · cases hs
    · simp only [Lib.guard_iff] at hs
      obtain ⟨-, rfl⟩ := hs
      exact
        { h with
          reading := by simp
          synced := by simp }

theorem consume_own (hs : s.consume clock adds drops ev = some s') : s'.own = s.own := by
  unfold consume at hs
  split at hs
  · cases hs
    rfl
  · split at hs
    · obtain ⟨r, -, rfl⟩ := Option.map_eq_some_iff.mp hs
      rfl
    · split at hs <;> cases hs <;> rfl
    · cases hs
      rfl

theorem step_own {a : Act K} (hs : s.step a = some s') : s'.own = s.own := by
  cases a with
  | store op =>
    simp only [step, Option.ite_none_right_eq_some, Option.map_eq_some_iff] at hs
    obtain ⟨-, store, -, rfl⟩ := hs
    rfl
  | registry clock op =>
    simp only [step, Option.ite_none_right_eq_some, Option.map_eq_some_iff] at hs
    obtain ⟨-, r, -, rfl⟩ := hs
    rfl
  | watchNamespaces w infos =>
    simp only [step, Option.ite_none_right_eq_some, Option.map_eq_some_iff] at hs
    obtain ⟨-, store, -, rfl⟩ := hs
    rfl
  | receive clock adds drops =>
    simp only [step] at hs
    split at hs
    · cases hs
    · split at hs
      · cases hs
      · have hown := consume_own hs
        exact hown
  | channelClosed =>
    simp only [step] at hs
    split at hs
    · cases hs
    · simp only [Lib.guard_iff] at hs
      obtain ⟨-, rfl⟩ := hs
      rfl

/-- **Remote namespaces mirror Discovery**: a relay that has read the marker of its watch and has
    no event waiting has exactly the store's pairs of other relays. A watch whose marker it has
    not read, ended or not, has left `remote` as it was when the watch was opened. -/
theorem remote_mirrors_discovery {n : Int} {own : Addr} {acts : List (Act K)}
    {s : NamespaceWatch K} (hrun : Lib.run step (init n own) acts = some s) :
    (∀ w, s.current = some w → s.synced = true → (s.store.namespaces.chans w).buf = [] →
      ∀ ad, ad ∈ s.r.remotePairs ↔ ad ∈ s.store.namespaces.entries ∧ ad.2 ≠ own) ∧
    (s.synced = false → s.r.remote = s.atOpen) := by
  have h : s.Follows := Lib.run_inv (fun _ _ _ h => h.step) (follows_init n own) hrun
  have hown : s.own = own := Lib.run_inv (fun _ _ _ h hs => (step_own hs).trans h) rfl hrun
  refine ⟨fun w hw hsync hbuf ad => ?_, fun hun => (h.unsynced hun).1⟩
  obtain ⟨hw, hopen⟩ := Option.filter_eq_some_iff.mp hw
  obtain ⟨hopened, hsent⟩ := h.reading w hw
  rw [hbuf, append_nil] at hsent
  have htold := h.store.namespaces.told w hopened (by simpa using hopen) ad
  rw [hsent] at htold
  rw [h.synced w hw hsync, ← AList.lookup_isSome, htold, AList.lookup_isSome, hown]

/-- A channel overflows; the relay drains it, watches again, and learns from the second snapshot
    that `[[1]]` is gone and `[[2]]` is there. -/
theorem remote_mirrors_discovery_restarted :
    ∃ s : NamespaceWatch Nat, s.r.remote.keys = [[[2]]] ∧
      ∀ ad, ad ∈ s.r.remotePairs ↔ ad ∈ s.store.namespaces.entries ∧ ad.2 ≠ "me" := by
  obtain ⟨s, hs, hkeys, hcur, hsync, hbuf⟩ := Lib.computes
    (o := Lib.run step (init 1 "me" : NamespaceWatch Nat)
      [.watchNamespaces 0 [], .receive (fun _ _ => 0) [] [],
        .store (.publishNamespace ⟨[[1]], "a", 0⟩ 5), .receive (fun _ _ => 0) [] [],
        .store (.publishNamespace ⟨[[3]], "me", 0⟩ 5),
        .store (.publishNamespace ⟨[[4]], "me", 0⟩ 5),
        .store (.unpublishNamespace [[1]] "a"), .store (.publishNamespace ⟨[[2]], "a", 0⟩ 5),
        .receive (fun _ _ => 0) [] [], .receive (fun _ _ => 0) [] [], .channelClosed,
        .watchNamespaces 1 [⟨[[2]], "a", 5⟩, ⟨[[3]], "me", 5⟩, ⟨[[4]], "me", 5⟩],
        .receive (fun _ _ => 0) [] [], .receive (fun _ _ => 0) [] [],
        .receive (fun _ _ => 0) [] [],
        .receive (fun _ _ => 0) [([[2]], "a")] [([[1]], "a")]])
    (P := fun s => s.r.remote.keys = [[[2]]] ∧ s.current = some 1 ∧ s.synced = true ∧
      (s.store.namespaces.chans 1).buf = []) (by decide +kernel)
  exact ⟨s, hkeys, (remote_mirrors_discovery hs).1 1 hcur hsync hbuf⟩

end NamespaceWatch
end MoqGo.Relay
