import MoqGo.Relay.Registry.Exact

/-!
# The two ends of a namespace subscription (`pkg/moqt/session/broker.go`)

The subscriber's `RequestBroker` keeps the namespaces announced to it, each suffix completed with
the prefix it believes in force. It learns that an update of the prefix took effect from the
REQUEST_OK that answers it, and it pairs REQUEST_OKs with its updates in order. Here one entry of
the relay's registry is composed with the broker at the other end of its stream: the updates on
their way to the relay, the entry's queue and its writer, and the part of the stream the broker
has read.

**The broker's state is the replay of what it read** (`Agrees.view`), for the REQUEST_OKs still to
be read and the updates still to be handled are its waiters in order (`Agrees.paired`). So a
NAMESPACE_DONE finds its NAMESPACE, and a broker that has read everything agrees with the relay.
-/

namespace MoqGo.Relay

open Lib Wire List

/-! ## The broker -/

/-- What closes the session. -/
inductive Violation
  | responseBeforeUpdate
  | namespaceDoneBeforeNamespace (suffix : TrackNamespace)
deriving DecidableEq, Repr

/-- `RequestBroker`, of a SUBSCRIBE_NAMESPACE. A waiter is the prefix its update sets, if any. -/
structure RequestBroker where
  waiters : List (Option TrackNamespace) := []
  updated : Bool := false
  nsPrefix : TrackNamespace
  namespaces : Finset TrackNamespace := ∅
  nsPrefixLost : Bool := false

namespace RequestBroker

/-- `Update` writes its REQUEST_UPDATE. -/
def update (b : RequestBroker) (pfx : Option TrackNamespace) : RequestBroker :=
  { b with waiters := b.waiters ++ [pfx], updated := true }

/-- An `Update` whose context ends takes its waiter out. -/
def giveUp (b : RequestBroker) (i : Nat) : RequestBroker :=
  if i < b.waiters.length then
    { b with waiters := b.waiters.eraseIdx i, nsPrefixLost := true }
  else b

/-- `route`: a REQUEST_OK answers the oldest waiter, a REQUEST_ERROR all of them. -/
def route (b : RequestBroker) (m : SubMessage) : RequestBroker :=
  match b.waiters, m with
  | [], _ => b
  | _ :: _, .requestError => { b with waiters := [] }
  | w :: rest, _ => { b with waiters := rest, nsPrefix := w.getD b.nsPrefix }

/-- `namespaceFollowup`. -/
def namespaceFollowup (b : RequestBroker) (m : SubMessage) : Except Violation RequestBroker :=
  if b.nsPrefixLost then .ok b
  else
    match m with
    | .namespace_ suffix =>
      .ok { b with namespaces := insert (b.nsPrefix ++ suffix) b.namespaces }
    | .namespaceDone suffix =>
      if b.nsPrefix ++ suffix ∈ b.namespaces then
        .ok { b with namespaces := b.namespaces.erase (b.nsPrefix ++ suffix) }
      else .error (.namespaceDoneBeforeNamespace suffix)
    | _ => .ok b

/-- `Serve`'s treatment of the next message. -/
def serve (b : RequestBroker) (m : SubMessage) : Except Violation RequestBroker :=
  match m with
  | .requestOk _ | .requestError =>
    if b.updated then .ok (b.route m) else .error .responseBeforeUpdate
  | _ => b.namespaceFollowup m

def view (b : RequestBroker) : View := ⟨b.nsPrefix, b.namespaces⟩

end RequestBroker

/-! ## The composition -/

/-- The relay, the updates on their way to it, and the subscriber: `got` is what the broker has
    read, `closed` why it closed the session. -/
structure Peering where
  r : NamespaceRegistry
  s : EntryID
  inflight : List (Option TrackNamespace) := []
  broker : RequestBroker
  got : List SubMessage := []
  closed : Option Violation := none

/-- An operation that is not the handler's own on the entry `s`: others may be registered and
    removed, sources come and go, and the writer of the queue runs. -/
def NamespaceRegistry.Op.spares (s : EntryID) (session : SessionID) : NamespaceRegistry.Op → Bool
  | .registerSubscriber t _ _ _ _ => t != s
  | .updatePrefix t _ _ _ => t != s
  | .enqueueOk t => t != s
  | .finish t => t != s
  | .unregisterSubscriber t => t != s
  | .removeSession session' => session' != session
  | _ => true

namespace Peering

inductive Act
  | update (pfx : Option TrackNamespace)
  | giveUp (i : Nat)
  | handle (clock : Clock) (dones news : List TrackNamespace)
  | registry (clock : Clock) (op : NamespaceRegistry.Op)
  | deliver

def step (p : Peering) : Act → Option Peering
  | .update pfx =>
    some { p with broker := p.broker.update pfx, inflight := p.inflight ++ [pfx] }
  | .giveUp i => some { p with broker := p.broker.giveUp i }
  | .handle clock dones news =>
    -- `namespaceUpdate`
    match p.inflight with
    | [] => none
    | none :: rest =>
      (p.r.step (clock, .enqueueOk p.s)).map fun r => { p with r := r, inflight := rest }
    | some pfx :: rest =>
      (p.r.step (clock, .updatePrefix p.s pfx dones news)).map fun r =>
        { p with r := r, inflight := rest }
  | .registry clock op =>
    if op.spares p.s (p.r.subs p.s).session then
      (p.r.step (clock, op)).map fun r => { p with r := r }
    else none
  | .deliver =>
    match p.closed, (p.r.subs p.s).written[p.got.length]? with
    | none, some m =>
      match p.broker.serve m with
      | .ok b => some { p with broker := b, got := p.got ++ [m] }
      | .error v => some { p with closed := some v, got := p.got ++ [m] }
    | _, _ => none

/-- The entry `s` was just registered, for the prefix the SUBSCRIBE_NAMESPACE asked for. -/
def start (r : NamespaceRegistry) (s : EntryID) : Peering :=
  { r := r, s := s, broker := { nsPrefix := (r.subs s).nsPrefix } }

end Peering

/-! ## What becomes of a queue -/

/-- The answers to updates among `ms`, each with the prefix it sets. -/
def oks (ms : List SubMessage) : List (Option TrackNamespace) :=
  ms.filterMap fun
    | .requestOk u => some u
    | _ => none

theorem oks_append (ms ms' : List SubMessage) : oks (ms ++ ms') = oks ms ++ oks ms' :=
  filterMap_append

def SubMessage.quiet : SubMessage → Bool
  | .requestOk _ | .requestError => false
  | _ => true

theorem oks_quiet {ms : List SubMessage} (h : ∀ m ∈ ms, m.quiet = true) : oks ms = [] := by
  refine filterMap_eq_nil_iff.mpr fun m hm => ?_
  have hq := h m hm
  cases m <;> first | rfl | exact absurd hq Bool.false_ne_true

namespace Outbox

/-- What is written and what is still to be written are a beginning of what was queued, and all
    of it unless the queue is stopped. -/
structure Ordered (q : Outbox) : Prop where
  sent : q.written ++ q.unsent <+: q.pushed
  all : q.stopped = false → q.written ++ q.unsent = q.pushed

/-- The queue `q'` is `q` after some of `ms` were queued, and all of them unless it is stopped. -/
structure Extends (q q' : Outbox) (ms : List SubMessage) : Prop where
  pushed : ∃ ms', ms' <+: ms ∧ q'.pushed = q.pushed ++ ms' ∧ (q.stopped = true → ms' = []) ∧
    (q'.stopped = false → ms' = ms)
  stopped : q'.stopped = false → q.stopped = false
  written : q.written <+: q'.written
  ordered : q.Ordered → q'.Ordered

theorem Extends.refl (q : Outbox) : q.Extends q [] :=
  ⟨⟨[], prefix_rfl, (append_nil _).symm, fun _ => rfl, fun _ => rfl⟩, fun h => h,
    prefix_rfl, fun h => h⟩

theorem Extends.trans {q₁ q₂ q₃ : Outbox} {ms ms' : List SubMessage} (h : q₁.Extends q₂ ms)
    (h' : q₂.Extends q₃ ms') : q₁.Extends q₃ (ms ++ ms') := by
  obtain ⟨⟨as, has, hp, hs, hall⟩, hstop, hw, ho⟩ := h
  obtain ⟨⟨bs, hbs, hp', hs', hall'⟩, hstop', hw', ho'⟩ := h'
  refine ⟨⟨as ++ bs, ?_, ?_, ?_, ?_⟩, fun h => hstop (hstop' h), hw.trans hw', ho' ∘ ho⟩
  · cases hq : q₂.stopped with
    | true =>
      rw [hs' hq, append_nil]
      exact has.trans (prefix_append ms ms')
    | false =>
      rw [hall hq]
      exact (prefix_append_right_inj ms).mpr hbs
  · rw [hp', hp, append_assoc]
  · intro hq
    cases hq₂ : q₂.stopped with
    | true => rw [hs hq, hs' hq₂, append_nil]
    | false => exact absurd (hstop hq₂) (by simp [hq])
  · intro hq
    rw [hall (hstop' hq), hall' hq]

variable {q : Outbox}

theorem Ordered.push (h : q.Ordered) (now : Nat) (m : SubMessage) (last : Bool) :
    (q.push now m last).Ordered := by
  unfold Outbox.push
  split
  · exact h
  · next hs =>
    split
    · refine ⟨?_, fun ho => absurd ho (by simp)⟩
      refine List.IsPrefix.trans ?_ h.sent
      rw [prefix_append_right_inj]
      simp only [unsent, append_nil, filterMap_append]
      exact prefix_append _ _
    · have hall := h.all (by simpa using hs)
      have heq : q.written ++ (q.unsent ++ [m]) = q.pushed ++ [m] := by
        rw [← hall, append_assoc]
      have hunsent : (q.writing.toList ++ (q.outbox ++ (⟨some m, now⟩ : QueuedMessage) ::
          if last then [⟨none, now⟩] else [])).filterMap QueuedMessage.m = q.unsent ++ [m] := by
        rw [unsent, ← append_assoc, filterMap_append]
        cases last <;> rfl
      refine ⟨?_, fun _ => ?_⟩
      · show q.written ++ List.filterMap _ _ <+: q.pushed ++ [m]
        rw [hunsent, heq]
      · show q.written ++ List.filterMap _ _ = q.pushed ++ [m]
        rw [hunsent, heq]

theorem Extends.push (q : Outbox) (now : Nat) (m : SubMessage) (last : Bool) :
    q.Extends (q.push now m last) [m] := by
  refine ⟨?_, ?_, ?_, fun h => h.push now m last⟩
  · unfold Outbox.push
    split
    · next hs =>
      exact ⟨[], nil_prefix, (append_nil _).symm, fun _ => rfl,
        fun ho => absurd hs (by simp [ho])⟩
    · next hs =>
      split
      · exact ⟨[], nil_prefix, (append_nil _).symm, fun _ => rfl,
          fun ho => absurd ho (by simp)⟩
      · exact ⟨[m], prefix_rfl, rfl, fun ho => absurd ho hs, fun _ => rfl⟩
  · unfold Outbox.push
    split
    · exact fun h => h
    · next hs => exact fun _ => by simpa using hs
  · unfold Outbox.push
    split
    · exact prefix_rfl
    · split <;> exact prefix_rfl

theorem Extends.pushAll {clock : Nat → Nat} (ms : List SubMessage) :
    ∀ q : Outbox, q.Extends (q.pushAll clock ms) ms := by
  induction ms with
  | nil => exact Extends.refl
  | cons m ms ih =>
    intro q
    exact (Extends.push q (clock q.pushed.length) m false).trans (ih _)

theorem Extends.take {q' : Outbox} (h : q.take = some q') : q.Extends q' [] := by
  have hpushed := take_pushed h
  refine ⟨⟨[], prefix_rfl, by rw [hpushed.1, append_nil], fun _ => rfl, fun _ => rfl⟩,
    hpushed.2, ?_, fun ho => ?_⟩
  · unfold Outbox.take at h
    split at h
    · cases h
      exact prefix_rfl
    · cases h
  · unfold Outbox.take at h
    split at h
    · next x rest hw hx =>
      cases h
      have hunsent : ((some x).toList ++ rest).filterMap (·.m) = q.unsent := by
        rw [unsent, hw, hx]
        rfl
      refine ⟨?_, fun hs => ?_⟩
      · show q.written ++ List.filterMap _ _ <+: q.pushed
        rw [hunsent]
        exact ho.sent
      · show q.written ++ List.filterMap _ _ = q.pushed
        rw [hunsent]
        exact ho.all hs
    · cases h

theorem Extends.wrote {q' : Outbox} {ok : Bool} (h : q.wrote ok = some q') : q.Extends q' [] := by
  have hpushed := wrote_pushed h
  refine ⟨⟨[], prefix_rfl, by rw [hpushed.1, append_nil], fun _ => rfl, fun _ => rfl⟩,
    hpushed.2, ?_, fun ho => ?_⟩
  · unfold Outbox.wrote at h
    split at h
    · split at h
      · cases h
        exact prefix_append _ _
      · cases h
        exact prefix_rfl
    · cases h
  · unfold Outbox.wrote at h
    split at h
    · next m _ hw =>
      have hunsent : q.unsent = m :: q.outbox.filterMap (·.m) := by
        rw [unsent, hw]
        rfl
      split at h
      · cases h
        have heq : q.written ++ [m] ++ q.outbox.filterMap (·.m) = q.written ++ q.unsent := by
          rw [hunsent, append_assoc, singleton_append]
        refine ⟨?_, fun hs => ?_⟩
        · show q.written ++ [m] ++ q.outbox.filterMap (·.m) <+: q.pushed
          rw [heq]
          exact ho.sent
        · show q.written ++ [m] ++ q.outbox.filterMap (·.m) = q.pushed
          rw [heq]
          exact ho.all hs
      · cases h
        refine ⟨?_, fun hs => absurd hs (by simp)⟩
        show q.written ++ [] <+: q.pushed
        rw [append_nil]
        exact (prefix_append _ _).trans ho.sent
    · cases h

end Outbox

/-- The entry is told things, but no update of it is answered. -/
structure SubscriberEntry.Quiet (e e' : SubscriberEntry) : Prop where
  queued : ∃ ms, (∀ m ∈ ms, m.quiet = true) ∧ e.toOutbox.Extends e'.toOutbox ms
  first : e'.first = e.first
  wantsTracks : e'.wantsTracks = e.wantsTracks
  session : e'.session = e.session

namespace SubscriberEntry.Quiet

theorem refl (e : SubscriberEntry) : e.Quiet e :=
  ⟨⟨[], nofun, Outbox.Extends.refl _⟩, rfl, rfl, rfl⟩

theorem trans {e₁ e₂ e₃ : SubscriberEntry} (h : e₁.Quiet e₂) (h' : e₂.Quiet e₃) : e₁.Quiet e₃ := by
  obtain ⟨ms, hms, hx⟩ := h.queued
  obtain ⟨ms', hms', hx'⟩ := h'.queued
  refine ⟨⟨ms ++ ms', ?_, hx.trans hx'⟩, h'.first.trans h.first,
    h'.wantsTracks.trans h.wantsTracks, h'.session.trans h.session⟩
  intro m hm
  rcases mem_append.mp hm with hm | hm
  · exact hms m hm
  · exact hms' m hm

theorem addSource (clock : Nat → Nat) (ns : TrackNamespace) (e : SubscriberEntry) :
    e.Quiet (e.addSource clock ns) := by
  unfold SubscriberEntry.addSource
  split
  · exact refl e
  · dsimp only
    split
    · refine ⟨⟨_, ?_, Outbox.Extends.pushAll _ _⟩, rfl, rfl, rfl⟩
      intro m hm
      rw [mem_singleton.mp hm]
      rfl
    · exact ⟨⟨[], nofun, Outbox.Extends.refl _⟩, rfl, rfl, rfl⟩

theorem removeSource (clock : Nat → Nat) (ns : TrackNamespace) (e : SubscriberEntry) :
    e.Quiet (e.removeSource clock ns) := by
  unfold SubscriberEntry.removeSource
  split
  · exact refl e
  · dsimp only
    split
    · refine ⟨⟨_, ?_, Outbox.Extends.pushAll _ _⟩, rfl, rfl, rfl⟩
      intro m hm
      rw [mem_singleton.mp hm]
      rfl
    · exact ⟨⟨[], nofun, Outbox.Extends.refl _⟩, rfl, rfl, rfl⟩

end SubscriberEntry.Quiet

namespace NamespaceRegistry

open SubscriberEntry Discovery

/-- What an operation that changes sources is to the subscribers. -/
structure Quiet (r r' : NamespaceRegistry) : Prop where
  subs : ∀ s, (r.subs s).Quiet (r'.subs s)
  subscribers : r'.subscribers = r.subscribers

theorem Quiet.refl (r : NamespaceRegistry) : r.Quiet r :=
  ⟨fun _ => SubscriberEntry.Quiet.refl _, rfl⟩

variable {r₁ r₂ r r' : NamespaceRegistry} {s t : EntryID}

theorem Quiet.trans {r₃ : NamespaceRegistry} (h : r₁.Quiet r₂) (h' : r₂.Quiet r₃) : r₁.Quiet r₃ :=
  ⟨fun s => (h.subs s).trans (h'.subs s), h'.subscribers.trans h.subscribers⟩

theorem Quiet.congr (h : r₁.Quiet r₂) (hs : r₁.subs = r.subs) (hs' : r₂.subs = r'.subs)
    (hl : r₁.subscribers = r.subscribers) (hl' : r₂.subscribers = r'.subscribers) : r.Quiet r' :=
  ⟨fun s => hs ▸ hs' ▸ h.subs s, hl' ▸ hl ▸ h.subscribers⟩

theorem Quiet.eachSubscriber {f : EntryID → SubscriberEntry → SubscriberEntry}
    (r : NamespaceRegistry) (hf : ∀ s (e : SubscriberEntry), e.Quiet (f s e)) :
    r.Quiet (r.eachSubscriber f) := by
  refine ⟨fun s => ?_, rfl⟩
  show (r.subs s).Quiet (if s ∈ r.subscribers then f s (r.subs s) else r.subs s)
  split
  · exact hf s _
  · exact SubscriberEntry.Quiet.refl _

section

variable (r : NamespaceRegistry) (clock : Clock)

theorem Quiet.addSourceLocked (ns : TrackNamespace) : r.Quiet (r.addSourceLocked clock ns) :=
  Quiet.eachSubscriber r fun s e => SubscriberEntry.Quiet.addSource (clock s) ns e

theorem Quiet.removeSourceLocked (ns : TrackNamespace) : r.Quiet (r.removeSourceLocked clock ns) :=
  Quiet.eachSubscriber r fun s e => SubscriberEntry.Quiet.removeSource (clock s) ns e

theorem Quiet.announcePublisher (e : PubID) : r.Quiet (r.announcePublisher clock e) := by
  unfold NamespaceRegistry.announcePublisher
  split
  · exact Quiet.refl r
  · exact (Quiet.addSourceLocked { r with publishers := _ } clock _).congr rfl rfl rfl rfl

theorem Quiet.releasePublisher (p : PublisherEntry) : r.Quiet (r.releasePublisher clock p).1 := by
  unfold NamespaceRegistry.releasePublisher
  split
  · exact (Quiet.removeSourceLocked r clock p.ns).congr rfl rfl rfl rfl
  · exact (Quiet.refl r).congr rfl rfl rfl rfl

theorem Quiet.unregisterPublisher (e : PubID) : r.Quiet (r.unregisterPublisher clock e) := by
  unfold NamespaceRegistry.unregisterPublisher
  split
  · exact Quiet.refl r
  · next p _ =>
    have h := Quiet.releasePublisher
      { r with publishers := r.publishers.filter (·.ref != e) } clock p
    dsimp only
    split
    · exact h.congr rfl rfl rfl rfl
    · exact h.congr rfl rfl rfl rfl

end

theorem Quiet.releaseAll (clock : Clock) (ps : List PublisherEntry) :
    ∀ (r : NamespaceRegistry) (out : List TrackNamespace),
      r.Quiet (releaseAll clock ps r out).1 := by
  induction ps with
  | nil => exact fun r _ => Quiet.refl r
  | cons p ps ih => exact fun r out => (Quiet.releasePublisher r clock p).trans (ih _ _)

section

variable (r : NamespaceRegistry) (clock : Clock) (ns : TrackNamespace) (addr : Addr)

theorem Quiet.addRelay : r.Quiet (r.addRelay clock ns addr) :=
  (Quiet.addSourceLocked { r with remote := _ } clock ns).congr rfl rfl rfl rfl

theorem Quiet.dropRelay : r.Quiet (r.dropRelay clock ns addr) :=
  (Quiet.removeSourceLocked { r with remote := _ } clock ns).congr rfl rfl rfl rfl

theorem Quiet.remoteNamespace (published : Bool) :
    r.Quiet (r.remoteNamespace clock ns addr published) := by
  unfold NamespaceRegistry.remoteNamespace
  split
  · split
    · exact Quiet.refl r
    · exact Quiet.addRelay r clock ns addr
  · split
    · exact Quiet.dropRelay r clock ns addr
    · exact Quiet.refl r

end

theorem Quiet.addRemote (clock : Clock) (ads : List (TrackNamespace × Addr)) :
    ∀ r : NamespaceRegistry, r.Quiet (r.addRemote clock ads) := by
  induction ads with
  | nil => exact Quiet.refl
  | cons ad ads ih =>
    intro r
    show r.Quiet (NamespaceRegistry.addRemote
      (if ad.2 ∈ r.relays ad.1 then r else r.addRelay clock ad.1 ad.2) clock ads)
    refine Quiet.trans ?_ (ih _)
    split
    · exact Quiet.refl r
    · exact Quiet.addRelay r clock ad.1 ad.2

theorem Quiet.dropRemote (clock : Clock) (drops : List (TrackNamespace × Addr)) :
    ∀ r : NamespaceRegistry, r.Quiet (r.dropRemote clock drops) := by
  induction drops with
  | nil => exact Quiet.refl
  | cons ad drops ih => exact fun r => (Quiet.dropRelay r clock ad.1 ad.2).trans (ih _)

theorem quiet_update_ne (h : s ≠ t) (e : SubscriberEntry) :
    (r.subs s).Quiet (Function.update r.subs t e s) := by
  rw [Function.update_of_ne h]
  exact SubscriberEntry.Quiet.refl _

theorem quiet_update {q : Outbox} {ms : List SubMessage} (hms : ∀ m ∈ ms, m.quiet = true)
    (h : (r.subs t).toOutbox.Extends q ms) :
    (r.subs s).Quiet (Function.update r.subs t { r.subs t with toOutbox := q } s) := by
  rcases eq_or_ne s t with rfl | hne
  · rw [Function.update_self]
    exact ⟨⟨ms, hms, h⟩, rfl, rfl, rfl⟩
  · exact quiet_update_ne hne _

theorem quiet_writer {move : Outbox → Option Outbox}
    (hmove : ∀ q q', move q = some q' → q.Extends q' []) (hr : r.writer t move = some r') :
    (r.subs s).Quiet (r'.subs s) := by
  obtain ⟨q, hq, rfl⟩ := Option.map_eq_some_iff.mp hr
  have hnone : ∀ m ∈ ([] : List SubMessage), m.quiet = true := nofun
  exact quiet_update hnone (hmove _ _ hq)

/-- **An operation that spares an entry leaves it registered and answers no update of it.** -/
theorem step_spares {clock : Clock} {op : Op} (hop : op.spares s (r.subs s).session = true)
    (h : r.step (clock, op) = some r') (hs : s ∈ r.subscribers) :
    s ∈ r'.subscribers ∧ (r.subs s).Quiet (r'.subs s) := by
  have hquiet : ∀ {r₁ : NamespaceRegistry}, r.Quiet r₁ →
      s ∈ r₁.subscribers ∧ (r.subs s).Quiet (r₁.subs s) :=
    fun hq => ⟨hq.subscribers ▸ hs, hq.subs s⟩
  cases op with
  | registerPublisher e ns session =>
    obtain ⟨-, rfl⟩ := guard_iff.mp h
    exact hquiet ((Quiet.refl r).congr rfl rfl rfl rfl)
  | announcePublisher e =>
    obtain ⟨-, rfl⟩ := guard_iff.mp h
    exact hquiet (Quiet.announcePublisher r clock e)
  | unregisterPublisher e =>
    simp only [step, Option.some.injEq] at h
    exact h ▸ hquiet (Quiet.unregisterPublisher r clock e)
  | remoteNamespace ns addr published =>
    simp only [step, Option.some.injEq] at h
    exact h ▸ hquiet (Quiet.remoteNamespace r clock ns addr published)
  | replaceRemote ads adds drops =>
    obtain ⟨-, rfl⟩ := guard_iff.mp h
    exact hquiet ((Quiet.addRemote clock adds r).trans (Quiet.dropRemote clock drops _))
  | registerSubscriber t pfx session wantsTracks rest =>
    obtain ⟨-, rfl⟩ := guard_iff.mp h
    have hne : s ≠ t := (bne_iff_ne.mp hop).symm
    exact ⟨mem_append_left _ hs, quiet_update_ne hne _⟩
  | updatePrefix t pfx dones news =>
    obtain ⟨-, rfl⟩ := guard_iff.mp h
    have hne : s ≠ t := (bne_iff_ne.mp hop).symm
    exact ⟨hs, quiet_update_ne hne _⟩
  | enqueueOk t =>
    simp only [step, Option.some.injEq] at h
    have hne : s ≠ t := (bne_iff_ne.mp hop).symm
    exact h ▸ ⟨hs, quiet_update_ne hne _⟩
  | finish t =>
    simp only [step, Option.some.injEq] at h
    have hne : s ≠ t := (bne_iff_ne.mp hop).symm
    exact h ▸ ⟨hs, quiet_update_ne hne _⟩
  | publishSkipped t ns name =>
    cases h
    unfold NamespaceRegistry.publishSkipped
    split
    · refine ⟨hs, quiet_update (fun m hm => ?_) (Outbox.Extends.push _ _ _ false)⟩
      rw [mem_singleton.mp hm]
      rfl
    · exact hquiet (Quiet.refl r)
  | unregisterSubscriber t =>
    simp only [step, Option.some.injEq] at h
    have hne : s ≠ t := (bne_iff_ne.mp hop).symm
    exact h ▸ ⟨mem_filter.mpr ⟨hs, by simpa using hne⟩, SubscriberEntry.Quiet.refl _⟩
  | removeSession session =>
    cases h
    have hq := Quiet.releaseAll clock (r.publishers.filter (·.session == session)) r []
    refine ⟨mem_filter.mpr ⟨hs, ?_⟩, hq.subs s⟩
    rw [bne_comm]
    exact hop
  | take t =>
    have hl : r'.subscribers = r.subscribers := by
      obtain ⟨q, -, rfl⟩ := Option.map_eq_some_iff.mp h
      rfl
    exact ⟨hl ▸ hs, quiet_writer (fun _ _ => Outbox.Extends.take) h⟩
  | wrote t ok =>
    have hl : r'.subscribers = r.subscribers := by
      obtain ⟨q, -, rfl⟩ := Option.map_eq_some_iff.mp h
      rfl
    exact ⟨hl ▸ hs, quiet_writer (fun _ _ => Outbox.Extends.wrote) h⟩

end NamespaceRegistry

/-! ## Agreement -/

namespace RequestBroker

variable {b : RequestBroker}

theorem serve_of_lost {m : SubMessage} (hl : b.nsPrefixLost = true) (hm : m.quiet = true) :
    b.serve m = .ok b := by
  cases m <;> first | exact if_pos hl | exact absurd hm Bool.false_ne_true

/-- Where the replay can take an announcement, so can the broker, and to the same effect. -/
theorem serve_of_receive {m : SubMessage} {v : View} (hl : b.nsPrefixLost = false)
    (hm : m.quiet = true) (hv : b.view.receive m = some v) :
    b.serve m = .ok { b with namespaces := v.named } ∧ v.nsPrefix = b.nsPrefix := by
  cases m with
  | namespace_ suffix =>
    obtain ⟨S, hS, rfl⟩ := Option.map_eq_some_iff.mp hv
    obtain ⟨-, hS⟩ := Option.ite_none_right_eq_some.mp hS
    rw [← Option.some.inj hS]
    exact ⟨if_neg (by simp [hl]), rfl⟩
  | namespaceDone suffix =>
    obtain ⟨S, hS, rfl⟩ := Option.map_eq_some_iff.mp hv
    obtain ⟨hmem, hS⟩ := Option.ite_none_right_eq_some.mp hS
    rw [← Option.some.inj hS]
    exact ⟨(if_neg (by simp [hl])).trans (if_pos hmem), rfl⟩
  | requestOk u => exact absurd hm Bool.false_ne_true
  | requestError => exact absurd hm Bool.false_ne_true
  | publishSkipped suffix name =>
    rw [← Option.some.inj hv]
    exact ⟨if_neg (by simp [hl]), rfl⟩

theorem route_frame (b : RequestBroker) (m : SubMessage) :
    (b.route m).updated = b.updated ∧ (b.route m).nsPrefixLost = b.nsPrefixLost := by
  unfold route
  split <;> exact ⟨rfl, rfl⟩

theorem serve_requestOk {u : Option TrackNamespace} {rest : List (Option TrackNamespace)}
    (hu : b.updated = true) (hw : b.waiters = u :: rest) :
    b.serve (.requestOk u) = .ok { b with waiters := rest, nsPrefix := u.getD b.nsPrefix } ∧
      b.view.receive (.requestOk u) = some ⟨u.getD b.nsPrefix, b.namespaces⟩ := by
  constructor
  · simp only [serve, hu, if_true, route, hw]
  · cases u <;> rfl

end RequestBroker

namespace Peering

/-- **The two ends agree**, as far as the broker has read. -/
structure Agrees (p : Peering) : Prop where
  sound : p.r.Sound
  registered : p.s ∈ p.r.subscribers
  wantsTracks : (p.r.subs p.s).wantsTracks = false
  ordered : (p.r.subs p.s).Ordered
  got : p.got <+: (p.r.subs p.s).written
  noError : .requestError ∉ (p.r.subs p.s).pushed
  updated : p.broker.updated = false → oks (p.r.subs p.s).pushed = [] ∧ p.inflight = []
  paired : p.broker.nsPrefixLost = false → ∃ later, (p.r.subs p.s).pushed = p.got ++ later ∧
    oks later <+: p.broker.waiters ∧
    ((p.r.subs p.s).stopped = false → p.broker.waiters = oks later ++ p.inflight)
  view : p.broker.nsPrefixLost = false →
    run View.receive (.start (p.r.subs p.s).first) p.got = some p.broker.view
  open_ : p.closed = none

variable {p p' : Peering}

theorem Agrees.relay (h : p.Agrees) {r : NamespaceRegistry} {ms : List SubMessage}
    {answered inflight : List (Option TrackNamespace)} (hsound : r.Sound)
    (hreg : p.s ∈ r.subscribers) (hx : (p.r.subs p.s).Extends (r.subs p.s).toOutbox ms)
    (hfirst : (r.subs p.s).first = (p.r.subs p.s).first)
    (hwants : (r.subs p.s).wantsTracks = (p.r.subs p.s).wantsTracks) (herr : .requestError ∉ ms)
    (hoks : oks ms = answered) (hin : p.inflight = answered ++ inflight) :
    Agrees { p with r := r, inflight := inflight } := by
  obtain ⟨ms', hpre, hpushed, hstop, hall⟩ := hx.pushed
  have hoks' : oks ms' <+: answered := hoks ▸ hpre.filterMap _
  refine
    { sound := hsound
      registered := hreg
      wantsTracks := hwants.trans h.wantsTracks
      ordered := hx.ordered h.ordered
      got := h.got.trans hx.written
      noError := ?_
      updated := ?_
      paired := ?_
      view := fun hl => hfirst ▸ h.view hl
      open_ := h.open_ }
  · show .requestError ∉ (r.subs p.s).pushed
    rw [hpushed, mem_append]
    exact fun hm => hm.elim h.noError fun hm => herr (hpre.subset hm)
  · intro hu
    obtain ⟨hnone, hempty⟩ := h.updated hu
    rw [hin, append_eq_nil_iff] at hempty
    refine ⟨?_, hempty.2⟩
    show oks (r.subs p.s).pushed = []
    rw [hempty.1] at hoks'
    rw [hpushed, oks_append, hnone, prefix_nil.mp hoks', append_nil]
  · intro hl
    obtain ⟨later, hlater, hwait, hopen⟩ := h.paired hl
    refine ⟨later ++ ms', ?_, ?_, fun ho => ?_⟩
    · show (r.subs p.s).pushed = _
      rw [hpushed, hlater, append_assoc]
    · rw [oks_append]
      cases hs : (p.r.subs p.s).stopped with
      | true =>
        rw [hstop hs]
        simpa [oks] using hwait
      | false =>
        rw [hopen hs, hin, prefix_append_right_inj]
        exact hoks'.trans (prefix_append _ _)
    · rw [hopen (hx.stopped ho), hin, oks_append, hall ho, hoks, append_assoc]

/-- **The next message is one the broker can take**, and it moves the broker's view as the
    relay's replay moves. -/
theorem Agrees.serve (h : p.Agrees) {m : SubMessage} {later : List SubMessage}
    (hpushed : (p.r.subs p.s).pushed = p.got ++ m :: later) :
    ∃ b, p.broker.serve m = .ok b ∧ b.updated = p.broker.updated ∧
      b.nsPrefixLost = p.broker.nsPrefixLost ∧
      (b.nsPrefixLost = false → p.broker.view.receive m = some b.view ∧
        p.broker.waiters = oks [m] ++ b.waiters) := by
  have hreceive : p.broker.nsPrefixLost = false → ∃ v, p.broker.view.receive m = some v := by
    intro hl
    have hexact := h.sound.mirrors p.s h.registered h.wantsTracks
    obtain ⟨w, hw⟩ := hexact.replays.valid
    rw [hpushed] at hw
    obtain ⟨v, hv, hrest⟩ := run_append.mp hw
    rw [h.view hl, Option.some.injEq] at hv
    obtain ⟨v', hv', -⟩ := run_cons.mp hrest
    exact ⟨v', hv ▸ hv'⟩
  by_cases hm : m.quiet = true
  · have hnone : oks [m] = [] := oks_quiet fun x hx => by rwa [mem_singleton.mp hx]
    cases hl : p.broker.nsPrefixLost with
    | true =>
      exact ⟨p.broker, RequestBroker.serve_of_lost hl hm, rfl, hl,
        fun hn => absurd hl (by simp [hn])⟩
    | false =>
      obtain ⟨v, hv⟩ := hreceive hl
      obtain ⟨hserve, hpfx⟩ := RequestBroker.serve_of_receive hl hm hv
      refine ⟨_, hserve, rfl, hl, fun _ => ⟨?_, by rw [hnone]; rfl⟩⟩
      rw [hv, RequestBroker.view, ← hpfx]
  · cases m with
    | requestOk u =>
      have hu : p.broker.updated = true := by
        by_contra hu
        have hnone := (h.updated (by simpa using hu)).1
        rw [hpushed, oks_append, append_eq_nil_iff] at hnone
        exact cons_ne_nil _ _ hnone.2
      cases hl : p.broker.nsPrefixLost with
      | true =>
        obtain ⟨hupd, hlost⟩ := p.broker.route_frame (.requestOk u)
        refine ⟨p.broker.route (.requestOk u), if_pos hu, hupd, hlost.trans hl, fun hn => ?_⟩
        rw [hlost, hl] at hn
        exact absurd hn (by simp)
      | false =>
        obtain ⟨later', hlater', hwait, -⟩ := h.paired hl
        have heq : later' = .requestOk u :: later :=
          append_cancel_left (hlater'.symm.trans hpushed)
        rw [heq] at hwait
        obtain ⟨rest, hrest⟩ := hwait
        obtain ⟨hserve, hview⟩ := RequestBroker.serve_requestOk hu hrest.symm
        exact ⟨_, hserve, rfl, hl, fun _ => ⟨hview, hrest.symm⟩⟩
    | requestError =>
      exact absurd (hpushed ▸ mem_append_right _ mem_cons_self) h.noError
    | namespace_ suffix => exact absurd rfl hm
    | namespaceDone suffix => exact absurd rfl hm
    | publishSkipped suffix name => exact absurd rfl hm

theorem Agrees.deliver (h : p.Agrees) (hs : p.step .deliver = some p') : p'.Agrees := by
  simp only [Peering.step, h.open_] at hs
  split at hs
  · next m hc hm =>
    have hgot : p.got ++ [m] <+: (p.r.subs p.s).written := by
      obtain ⟨t, ht⟩ := h.got
      rw [← ht, List.getElem?_append_right (Nat.le_refl _), Nat.sub_self] at hm
      cases t with
      | nil => cases hm
      | cons x t =>
        rw [List.getElem?_cons_zero, Option.some.injEq] at hm
        rw [← ht, hm]
        exact ⟨t, by rw [append_assoc, singleton_append]⟩
    obtain ⟨later, hlater⟩ := hgot.trans ((prefix_append _ _).trans h.ordered.sent)
    have hpushed : (p.r.subs p.s).pushed = p.got ++ m :: later := by
      rw [← hlater, append_assoc, singleton_append]
    obtain ⟨b, hb, hupd, hlost, hmove⟩ := h.serve hpushed
    rw [hb] at hs
    cases hs
    refine
      { sound := h.sound
        registered := h.registered
        wantsTracks := h.wantsTracks
        ordered := h.ordered
        got := hgot
        noError := h.noError
        updated := fun hu => h.updated (hupd ▸ hu)
        paired := fun hl => ?_
        view := fun hl => ?_
        open_ := rfl }
    · obtain ⟨later', hlater', hwait, hopen⟩ := h.paired (hlost ▸ hl)
      have heq : later' = m :: later := append_cancel_left (hlater'.symm.trans hpushed)
      have hoks : oks later' = oks [m] ++ oks later := by
        rw [heq, ← oks_append, singleton_append]
      rw [hoks, (hmove hl).2] at hwait hopen
      refine ⟨later, hlater.symm, (prefix_append_right_inj _).mp hwait, fun ho => ?_⟩
      have hsplit := hopen ho
      rw [append_assoc] at hsplit
      exact append_cancel_left hsplit
    · show run View.receive _ (p.got ++ [m]) = some b.view
      refine run_append.mpr ⟨_, h.view (hlost ▸ hl), ?_⟩
      rw [run_singleton]
      exact (hmove hl).1
  · cases hs

theorem Agrees.handle {clock : Clock} {dones news : List TrackNamespace} (h : p.Agrees)
    (hs : p.step (.handle clock dones news) = some p') : p'.Agrees := by
  simp only [Peering.step] at hs
  split at hs
  · cases hs
  · next rest hin =>
    obtain ⟨r, hr, rfl⟩ := Option.map_eq_some_iff.mp hs
    have hsound := h.sound.step hr
    cases hr
    let e := p.r.subs p.s
    let q := e.toOutbox.push (clock p.s e.pushed.length) (.requestOk none) false
    have hsub : (p.r.queue clock p.s (.requestOk none) false).subs p.s =
        { e with toOutbox := q } := Function.update_self ..
    have hx : e.Extends ((p.r.queue clock p.s (.requestOk none) false).subs p.s).toOutbox
        [.requestOk none] := by
      rw [hsub]
      exact Outbox.Extends.push _ _ _ false
    refine h.relay hsound h.registered hx ?_ ?_ (by simp) rfl hin
    · rw [hsub]
    · rw [hsub]
  · next pfx rest hin =>
    obtain ⟨r, hr, rfl⟩ := Option.map_eq_some_iff.mp hs
    have hsound := h.sound.step hr
    obtain ⟨-, rfl⟩ := guard_iff.mp hr
    let e := p.r.subs p.s
    let oldNames := (p.r.namespaceSources e.nsPrefix).keys
    let before := dones.map fun k =>
      namespaceDoneMessage (SubscriberEntry.nameOf oldNames k) e.nsPrefix
    let after := news.map (namespaceMessage · pfx)
    have hbefore : ∀ m ∈ before, m.quiet = true := by
      intro m hm
      obtain ⟨k, -, rfl⟩ := mem_map.mp hm
      rfl
    have hafter : ∀ m ∈ after, m.quiet = true := by
      intro m hm
      obtain ⟨k, -, rfl⟩ := mem_map.mp hm
      rfl
    have hoks : oks (before ++ .requestOk (some pfx) :: after) = [some pfx] := by
      show oks (before ++ ([.requestOk (some pfx)] ++ after)) = _
      rw [oks_append, oks_append, oks_quiet hbefore, oks_quiet hafter]
      rfl
    have hsub : (p.r.updatePrefix clock p.s pfx dones news).subs p.s =
        { e.enqueueAll (clock p.s) (before ++ .requestOk (some pfx) :: after) with
          nsPrefix := pfx, announced := p.r.namespaceSources pfx } :=
      (Function.update_self ..).trans (if_neg (by simp [h.wantsTracks]))
    have hx : e.Extends ((p.r.updatePrefix clock p.s pfx dones news).subs p.s).toOutbox
        (before ++ .requestOk (some pfx) :: after) := by
      rw [hsub]
      exact Outbox.Extends.pushAll _ _
    refine h.relay hsound h.registered hx ?_ ?_ ?_ hoks hin
    · rw [hsub]
      rfl
    · rw [hsub]
      rfl
    · intro herr
      rcases mem_append.mp herr with hm | hm
      · exact absurd (hbefore _ hm) Bool.false_ne_true
      · rcases mem_cons.mp hm with hm | hm
        · cases hm
        · exact absurd (hafter _ hm) Bool.false_ne_true

theorem Agrees.step {a : Act} (h : p.Agrees) (hs : p.step a = some p') : p'.Agrees := by
  cases a with
  | update pfx =>
    cases hs
    refine
      { h with
        updated := fun hu => absurd hu (by simp [RequestBroker.update])
        paired := fun hl => ?_
        view := h.view }
    obtain ⟨later, hlater, hwait, hopen⟩ := h.paired hl
    refine ⟨later, hlater, hwait.trans (prefix_append _ _), fun ho => ?_⟩
    show p.broker.waiters ++ [pfx] = oks later ++ (p.inflight ++ [pfx])
    rw [hopen ho, append_assoc]
  | giveUp i =>
    cases hs
    show Agrees { p with broker := p.broker.giveUp i }
    unfold RequestBroker.giveUp
    split
    · exact
        { h with
          paired := fun hl => absurd hl (by simp)
          view := fun hl => absurd hl (by simp) }
    · exact h
  | handle clock dones news => exact h.handle hs
  | registry clock op =>
    simp only [Peering.step, Option.ite_none_right_eq_some] at hs
    obtain ⟨hop, hs⟩ := hs
    obtain ⟨r, hr, rfl⟩ := Option.map_eq_some_iff.mp hs
    obtain ⟨hreg, hq⟩ := NamespaceRegistry.step_spares hop hr h.registered
    obtain ⟨ms, hms, hx⟩ := hq.queued
    refine h.relay (h.sound.step hr) hreg hx hq.first hq.wantsTracks ?_ (oks_quiet hms) rfl
    intro herr
    exact absurd (hms _ herr) Bool.false_ne_true
  | deliver => exact h.deliver hs

theorem step_s {a : Act} (hs : p.step a = some p') : p'.s = p.s := by
  cases a with
  | update pfx =>
    cases hs
    rfl
  | giveUp i =>
    cases hs
    rfl
  | handle clock dones news =>
    simp only [step] at hs
    split at hs
    · cases hs
    · obtain ⟨r, -, rfl⟩ := Option.map_eq_some_iff.mp hs
      rfl
    · obtain ⟨r, -, rfl⟩ := Option.map_eq_some_iff.mp hs
      rfl
  | registry clock op =>
    simp only [step, Option.ite_none_right_eq_some] at hs
    obtain ⟨r, -, rfl⟩ := Option.map_eq_some_iff.mp hs.2
    rfl
  | deliver =>
    simp only [step] at hs
    split at hs
    · split at hs <;> cases hs <;> rfl
    · cases hs

theorem agrees_start {r r' : NamespaceRegistry} {clock : Clock} {s : EntryID}
    {pfx : TrackNamespace} {session : SessionID} {rest : List TrackNamespace} (h : r.Sound)
    (hr : r.step (clock, .registerSubscriber s pfx session false rest) = some r') :
    (start r' s).Agrees := by
  have hsound := h.step hr
  obtain ⟨-, rfl⟩ := guard_iff.mp hr
  let names := (NamespaceRegistry.seedLocals r.publishers (r.namespaceSources pfx).keys).1 ++ rest
  have hsub : (r.registerSubscriber clock s pfx session false rest).subs s =
      SubscriberEntry.enqueueAll (clock s)
        { nsPrefix := pfx, session := session, wantsTracks := false,
          announced := r.namespaceSources pfx }
        (names.map (namespaceMessage · pfx)) :=
    Function.update_self ..
  have hx : Outbox.Extends {}
      ((r.registerSubscriber clock s pfx session false rest).subs s).toOutbox
      (names.map (namespaceMessage · pfx)) := by
    rw [hsub]
    exact Outbox.Extends.pushAll _ _
  obtain ⟨ms, hms, hpushed, -⟩ := hx.pushed
  have hquiet : ∀ m ∈ ms, m.quiet = true := by
    intro m hm
    obtain ⟨k, -, rfl⟩ := mem_map.mp (hms.subset hm)
    rfl
  have hpushed : ((r.registerSubscriber clock s pfx session false rest).subs s).pushed = ms :=
    hpushed
  refine
    { sound := hsound
      registered := mem_append_right _ mem_cons_self
      wantsTracks := by rw [start, hsub]; rfl
      ordered := hx.ordered ⟨prefix_rfl, fun _ => rfl⟩
      got := nil_prefix
      noError := ?_
      updated := fun _ => ⟨?_, rfl⟩
      paired := fun _ => ⟨ms, hpushed, ?_, fun _ => ?_⟩
      view := fun _ => ?_
      open_ := rfl }
  · rw [start, hpushed]
    intro herr
    exact absurd (hquiet _ herr) Bool.false_ne_true
  · rw [start, hpushed, oks_quiet hquiet]
  · rw [oks_quiet hquiet]
    exact nil_prefix
  · rw [oks_quiet hquiet]
    rfl
  · rw [start, hsub]
    rfl

/-- **The receiving side agrees with the relay**: the broker never finds a NAMESPACE_DONE before
    its NAMESPACE (nor an answer to no update), and a broker that has read all that was queued
    holds the relay's prefix and the namespaces the relay counts. -/
theorem broker_agrees {before : List (Clock × NamespaceRegistry.Op)} {r r' : NamespaceRegistry}
    (hbefore : run NamespaceRegistry.step .init before = some r) {clock : Clock} {s : EntryID}
    {pfx : TrackNamespace} {session : SessionID} {rest : List TrackNamespace}
    (hreg : r.step (clock, .registerSubscriber s pfx session false rest) = some r')
    {acts : List Act} {p : Peering} (hrun : run step (start r' s) acts = some p) :
    p.closed = none ∧
      ((p.r.subs s).stopped = false → p.broker.nsPrefixLost = false →
        p.got = (p.r.subs s).pushed →
        p.broker.nsPrefix = (p.r.subs s).nsPrefix ∧
          ∀ ns, ns ∈ p.broker.namespaces ↔ ns ∈ (p.r.subs s).announced) := by
  have hsound : r.Sound :=
    run_inv (fun _ _ _ h => h.step) NamespaceRegistry.sound_init hbefore
  have h : p.s = s ∧ p.Agrees :=
    run_inv (P := fun p => p.s = s ∧ p.Agrees)
      (fun _ _ _ h hs => ⟨(step_s hs).trans h.1, h.2.step hs⟩)
      ⟨rfl, agrees_start hsound hreg⟩ hrun
  obtain ⟨rfl, h⟩ := h
  refine ⟨h.open_, fun ho hl hgot => ?_⟩
  have hview := h.view hl
  rw [hgot, (h.sound.mirrors p.s h.registered h.wantsTracks).replays.replay ho,
    Option.some.injEq] at hview
  obtain ⟨hpfx, hnamed⟩ := View.mk.inj hview
  refine ⟨hpfx.symm, fun ns => ?_⟩
  rw [← hnamed, mem_toFinset, AList.mem_keys]

/-- Two updates are sent, the second without a prefix, while a namespace comes that the new
    prefix does not cover; all four messages are written and read. -/
theorem broker_agrees_pipelined :
    ∃ p : Peering, p.got = [.namespace_ [[3]], .namespaceDone [[3]],
        .requestOk (some [[1], [2]]), .requestOk none] ∧
      p.closed = none ∧ p.broker.nsPrefix = (p.r.subs 5).nsPrefix ∧
      ∀ ns, ns ∈ p.broker.namespaces ↔ ns ∈ (p.r.subs 5).announced := by
  let clock : Clock := fun _ _ => 0
  let send : List Act := [.registry clock (.take 5), .registry clock (.wrote 5 true), .deliver]
  obtain ⟨r', hreg⟩ : ∃ r', NamespaceRegistry.init.step
      (clock, .registerSubscriber 5 [[1]] 8 false []) = some r' := ⟨_, rfl⟩
  obtain ⟨p, hp, hgot, hall, ho, hl⟩ := computes
    (o := (NamespaceRegistry.init.step (clock, .registerSubscriber 5 [[1]] 8 false [])).bind
      fun r => run step (start r 5)
        ([.update (some [[1], [2]]), .update none,
          .registry clock (.remoteNamespace [[1], [3]] "b" true),
          .handle clock [[[1], [3]]] [], .handle clock [] []] ++ send ++ send ++ send ++ send))
    (P := fun p => p.got = [.namespace_ [[3]], .namespaceDone [[3]],
        .requestOk (some [[1], [2]]), .requestOk none] ∧ p.got = (p.r.subs 5).pushed ∧
      (p.r.subs 5).stopped = false ∧ p.broker.nsPrefixLost = false) (by decide +kernel)
  rw [hreg, Option.bind_some] at hp
  have hnone : run NamespaceRegistry.step .init [] = some .init := rfl
  obtain ⟨hopen, hagree⟩ := broker_agrees hnone hreg hp
  obtain ⟨hpfx, hns⟩ := hagree ho hl hall
  exact ⟨p, hgot, hopen, hpfx, hns⟩

end Peering
end MoqGo.Relay
