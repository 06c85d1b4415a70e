import MoqGo.Lib.Counts
import MoqGo.Lib.Edits
import MoqGo.Relay.Registry.Tracks

/-!
# A namespace subscription's entry (`pkg/relay/internal/registry/namespace_state.go`)

A SUBSCRIBE_NAMESPACE or SUBSCRIBE_TRACKS is an entry of the registry: the prefix asked for, the
number of sources of each namespace announced under it, and the queue of the messages for its
stream. The queue takes nothing more once it is stopped: the last message was queued, a write
failed, or a message found the stream blocked.

What the subscriber makes of the messages is a `View`: the prefix in force, which an answered
update moves, and the namespaces announced and not done, each suffix completed with that prefix.
`receive` is strict, so a stream that can be replayed never announces a namespace twice and never
ends one that is not announced. `Exact` relates an entry to the sources there are: **the counts
are the numbers of sources, and the view is the set of the namespaces counted**.

The fields `pushed`, `written` and `first` are written and never read: the messages queued, those
written to the stream, and the prefix the entry was registered with.
-/

namespace MoqGo.Relay

open Lib Wire List Function

/-! ## The queue -/

/-- A message on the stream of a namespace subscription, after its first REQUEST_OK. The prefix
    that `requestOk` carries is the one of the update it answers, which is not on the wire. -/
inductive SubMessage
  | namespace_ (suffix : TrackNamespace)
  | namespaceDone (suffix : TrackNamespace)
  | requestOk (update : Option TrackNamespace)
  | requestError
  | publishSkipped (suffix : TrackNamespace) (name : List UInt8)
deriving DecidableEq, Repr

/-- `namespaceMessage`. -/
def namespaceMessage (ns pfx : TrackNamespace) : SubMessage := .namespace_ (suffixAfter ns pfx)

/-- `namespaceDoneMessage`. -/
def namespaceDoneMessage (ns pfx : TrackNamespace) : SubMessage :=
  .namespaceDone (suffixAfter ns pfx)

/-- `queuedMessage`: no message is the finish marker. -/
structure QueuedMessage where
  m : Option SubMessage
  queuedAt : Nat
deriving DecidableEq, Repr

def maxQueuedMessages : Nat := 1024

def maxUnsentWait : Nat := 1000000000

/-- The queue of a `SubscriberEntry`. `outReady` is the wake-up its writer finds. -/
structure Outbox where
  outbox : List QueuedMessage := []
  stopped : Bool := false
  outReady : Bool := false
  writing : Option QueuedMessage := none
  pushed : List SubMessage := []
  written : List SubMessage := []
deriving DecidableEq, Repr

namespace Outbox

/-- `blockedLocked`. -/
def blockedLocked (q : Outbox) (now : Nat) : Bool :=
  match q.writing with
  | some w => maxQueuedMessages ≤ q.outbox.length + 1 && w.queuedAt + maxUnsentWait < now
  | none =>
    match q.outbox with
    | [] => false
    | x :: _ => maxQueuedMessages ≤ q.outbox.length && x.queuedAt + maxUnsentWait < now

/-- `push`. -/
def push (q : Outbox) (now : Nat) (m : SubMessage) (last : Bool) : Outbox :=
  if q.stopped then q
  else if q.blockedLocked now then { q with stopped := true, outbox := [] }
  else
    { q with
      outbox := q.outbox ++ ⟨some m, now⟩ :: if last then [⟨none, now⟩] else []
      stopped := last
      outReady := true
      pushed := q.pushed ++ [m] }

/-- Messages queued one after another; `clock n` is the time when the `n`-th is. -/
def pushAll (clock : Nat → Nat) (q : Outbox) (ms : List SubMessage) : Outbox :=
  ms.foldl (fun q m => q.push (clock q.pushed.length) m false) q

/-- `RunWriter` takes the next message. -/
def take (q : Outbox) : Option Outbox :=
  match q.writing, q.outbox with
  | none, x :: rest => some { q with outbox := rest, writing := some x }
  | _, _ => none

/-- `RunWriter` wrote the message it took, or could not. -/
def wrote (q : Outbox) (ok : Bool) : Option Outbox :=
  match q.writing with
  | some ⟨some m, _⟩ =>
    if ok then some { q with writing := none, written := q.written ++ [m] }
    else some { q with writing := none, stopped := true, outbox := [] }
  | _ => none

def unsent (q : Outbox) : List SubMessage := (q.writing.toList ++ q.outbox).filterMap (·.m)

end Outbox

/-! ## What the subscriber makes of it -/

/-- The prefix in force and the namespaces announced. -/
structure View where
  nsPrefix : TrackNamespace
  named : Finset TrackNamespace
deriving DecidableEq

namespace View

/-- The next message: none if it announces what is announced or ends what is not. -/
def receive (v : View) : SubMessage → Option View
  | .namespace_ suffix =>
    (Edit.strict v.named (.add (v.nsPrefix ++ suffix))).map fun S => { v with named := S }
  | .namespaceDone suffix =>
    (Edit.strict v.named (.remove (v.nsPrefix ++ suffix))).map fun S => { v with named := S }
  | .requestOk (some p) => some { v with nsPrefix := p }
  | _ => some v

/-- The view of a subscriber that has received nothing. -/
def start (pfx : TrackNamespace) : View := ⟨pfx, ∅⟩

variable {p : TrackNamespace} {as : List TrackNamespace} {S : Finset TrackNamespace}

theorem receive_namespaceMessage {ns : TrackNamespace} (hp : p <+: ns) (S : Finset TrackNamespace) :
    receive ⟨p, S⟩ (namespaceMessage ns p) = (Edit.strict S (.add ns)).map (View.mk p) := by
  simp only [receive, namespaceMessage, append_suffixAfter hp]

theorem receive_namespaceDoneMessage {ns : TrackNamespace} (hp : p <+: ns)
    (S : Finset TrackNamespace) : receive ⟨p, S⟩ (namespaceDoneMessage ns p) =
      (Edit.strict S (.remove ns)).map (View.mk p) := by
  simp only [receive, namespaceDoneMessage, append_suffixAfter hp]

theorem run_announce (hp : ∀ ns ∈ as, p <+: ns) (hn : as.Nodup) (h : ∀ ns ∈ as, ns ∉ S) :
    run receive ⟨p, S⟩ (as.map (namespaceMessage · p)) = some ⟨p, S ∪ as.toFinset⟩ := by
  have hmap : as.map (namespaceMessage · p) =
      (as.map Edit.add).map fun e => namespaceMessage e.target p := by
    rw [map_map]
    rfl
  rw [hmap, run_map (f := View.mk p),
    Edit.run_strict_adds hn h]
  · rfl
  · intro e he T
    obtain ⟨ns, hns, rfl⟩ := mem_map.mp he
    exact receive_namespaceMessage (hp ns hns) T

theorem run_end (hp : ∀ ns ∈ as, p <+: ns) (hn : as.Nodup) (h : ∀ ns ∈ as, ns ∈ S) :
    run receive ⟨p, S⟩ (as.map (namespaceDoneMessage · p)) = some ⟨p, S \ as.toFinset⟩ := by
  have hmap : as.map (namespaceDoneMessage · p) =
      (as.map Edit.remove).map fun e => namespaceDoneMessage e.target p := by
    rw [map_map]
    rfl
  rw [hmap, run_map (f := View.mk p),
    Edit.run_strict_removes hn h]
  · rfl
  · intro e he T
    obtain ⟨ns, hns, rfl⟩ := mem_map.mp he
    exact receive_namespaceDoneMessage (hp ns hns) T

end View

namespace Outbox

/-- The messages queued can be replayed, and give `v` unless the queue is stopped. -/
structure Replays (q : Outbox) (first : TrackNamespace) (v : View) : Prop where
  valid : ∃ w, run View.receive (.start first) q.pushed = some w
  replay : q.stopped = false → run View.receive (.start first) q.pushed = some v

variable {q q' : Outbox} {first : TrackNamespace}

theorem Replays.push {v v' : View} {m : SubMessage} (h : q.Replays first v)
    (hm : v.receive m = some v') (now : Nat) (last : Bool) :
    (q.push now m last).Replays first v' := by
  unfold Outbox.push
  split
  · next hs => exact ⟨h.valid, fun ho => absurd hs (by simp [ho])⟩
  · next hs =>
    split
    · exact ⟨h.valid, fun ho => absurd ho (by simp)⟩
    · have hrun : run View.receive (.start first) (q.pushed ++ [m]) = some v' := by
        refine run_append.mpr ⟨v, h.replay (by simpa using hs), ?_⟩
        exact run_cons.mpr ⟨v', hm, rfl⟩
      exact ⟨⟨v', hrun⟩, fun _ => hrun⟩

theorem Replays.pushAll {clock : Nat → Nat} {ms : List SubMessage} :
    ∀ {q : Outbox} {v v' : View}, q.Replays first v → run View.receive v ms = some v' →
      (q.pushAll clock ms).Replays first v' := by
  induction ms with
  | nil =>
    intro q v v' h hr
    rw [run_nil, Option.some.injEq] at hr
    exact hr ▸ h
  | cons m ms ih =>
    intro q v v' h hr
    obtain ⟨u, hu, hrest⟩ := run_cons.mp hr
    exact ih (h.push hu (clock q.pushed.length) false) hrest

theorem Replays.of_pushed {v : View} (h : q.Replays first v) (hp : q'.pushed = q.pushed)
    (hs : q'.stopped = false → q.stopped = false) : q'.Replays first v := by
  refine ⟨?_, fun ho => ?_⟩
  · rw [hp]
    exact h.valid
  · rw [hp]
    exact h.replay (hs ho)

theorem take_pushed (h : q.take = some q') :
    q'.pushed = q.pushed ∧ (q'.stopped = false → q.stopped = false) := by
  unfold take at h
  split at h
  · cases h
    exact ⟨rfl, fun hs => hs⟩
  · cases h

theorem wrote_pushed {ok : Bool} (h : q.wrote ok = some q') :
    q'.pushed = q.pushed ∧ (q'.stopped = false → q.stopped = false) := by
  unfold wrote at h
  split at h
  · split at h
    · cases h
      exact ⟨rfl, fun hs => hs⟩
    · cases h
      exact ⟨rfl, fun hs => absurd hs (by simp)⟩
  · cases h

end Outbox

/-! ## The entry -/

/-- `SubscriberEntry`, of a SUBSCRIBE_NAMESPACE or, if `wantsTracks`, of a SUBSCRIBE_TRACKS. -/
structure SubscriberEntry extends Outbox where
  nsPrefix : TrackNamespace
  session : SessionID
  wantsTracks : Bool
  announced : GoMap TrackNamespace Nat := ∅
  first : TrackNamespace := nsPrefix

namespace SubscriberEntry

/-- `enqueue`, for a loop of them. -/
def enqueueAll (clock : Nat → Nat) (e : SubscriberEntry) (ms : List SubMessage) :
    SubscriberEntry :=
  { e with toOutbox := e.toOutbox.pushAll clock ms }

/-- What `addSourceLocked` does to an entry. -/
def addSource (clock : Nat → Nat) (ns : TrackNamespace) (e : SubscriberEntry) : SubscriberEntry :=
  if e.wantsTracks || !ns.hasPrefix e.nsPrefix then e
  else
    let e := { e with announced := more e.announced ns 1 }
    if e.announced.lookup ns = some 1 then
      e.enqueueAll clock [namespaceMessage ns e.nsPrefix]
    else e

/-- What `removeSourceLocked` does to an entry. -/
def removeSource (clock : Nat → Nat) (ns : TrackNamespace) (e : SubscriberEntry) :
    SubscriberEntry :=
  if e.wantsTracks || (e.announced.lookup ns).getD 0 == 0 then e
  else
    let e := { e with announced := less e.announced ns }
    if e.announced.lookup ns = none then
      e.enqueueAll clock [namespaceDoneMessage ns e.nsPrefix]
    else e

theorem addSource_wantsTracks (clock : Nat → Nat) (ns : TrackNamespace) (e : SubscriberEntry) :
    (e.addSource clock ns).wantsTracks = e.wantsTracks := by
  unfold addSource
  split
  · rfl
  · dsimp only
    split <;> rfl

theorem removeSource_wantsTracks (clock : Nat → Nat) (ns : TrackNamespace)
    (e : SubscriberEntry) : (e.removeSource clock ns).wantsTracks = e.wantsTracks := by
  unfold removeSource
  split
  · rfl
  · dsimp only
    split <;> rfl

/-- `oldNames[k]`: a namespace that is not there is the one of no fields. -/
def nameOf (names : List TrackNamespace) (k : TrackNamespace) : TrackNamespace :=
  if k ∈ names then k else []

/-- `UpdatePrefix`, where `counts` are the sources under the new prefix and `oldNames` the
    namespaces under the old one. `dones` and `news` are what the walks of the two maps pick. -/
def updatePrefix (clock : Nat → Nat) (e : SubscriberEntry) (pfx : TrackNamespace)
    (counts : GoMap TrackNamespace Nat) (oldNames dones news : List TrackNamespace) :
    SubscriberEntry :=
  let old := e.nsPrefix
  let e := { e with nsPrefix := pfx }
  if e.wantsTracks then e.enqueueAll clock [.requestOk (some pfx)]
  else
    let e := e.enqueueAll clock
      (dones.map (fun k => namespaceDoneMessage (nameOf oldNames k) old) ++
        .requestOk (some pfx) :: news.map (namespaceMessage · pfx))
    { e with announced := counts }

theorem updatePrefix_wantsTracks (clock : Nat → Nat) (e : SubscriberEntry) (pfx : TrackNamespace)
    (counts : GoMap TrackNamespace Nat) (oldNames dones news : List TrackNamespace) :
    (e.updatePrefix clock pfx counts oldNames dones news).wantsTracks = e.wantsTracks := by
  unfold updatePrefix
  dsimp only
  split <;> rfl

/-- The number of sources the entry counts, where `src` are all there are. -/
def under (src : TrackNamespace → Nat) (pfx ns : TrackNamespace) : Nat :=
  if pfx <+: ns then src ns else 0

/-- The entry counts the sources there are, and its queue replays to what it counts. -/
structure Exact (src : TrackNamespace → Nat) (e : SubscriberEntry) : Prop where
  counts : Counts e.announced (under src e.nsPrefix)
  replays : e.toOutbox.Replays e.first ⟨e.nsPrefix, e.announced.keys.toFinset⟩

variable {src : TrackNamespace → Nat} {pfx ns : TrackNamespace} {e : SubscriberEntry}
  {counts : GoMap TrackNamespace Nat}

theorem under_update_of_not_covered (h : ¬ pfx <+: ns) (k : Nat) :
    under (update src ns k) pfx = under src pfx := by
  funext a
  unfold under
  split
  · next ha =>
    rw [update_of_ne]
    rintro rfl
    exact h ha
  · rfl

theorem under_update (h : pfx <+: ns) (k : Nat) :
    under (update src ns k) pfx = update (under src pfx) ns k := by
  funext a
  rcases eq_or_ne a ns with rfl | ha
  · rw [update_self, under, if_pos h, update_self]
  · rw [update_of_ne ha, under, update_of_ne ha, under]

theorem keys_update {m m' : GoMap TrackNamespace Nat} {k : Nat} (hp : pfx <+: ns)
    (hm : Counts m (under src pfx)) (hm' : Counts m' (under (update src ns k) pfx)) :
    m'.keys.toFinset = if k = 0 then m.keys.toFinset.erase ns else insert ns m.keys.toFinset := by
  rw [under_update hp] at hm'
  ext a
  rcases eq_or_ne a ns with rfl | ha
  · split_ifs with hk <;> simp [hm'.mem_keys_iff, hk, Nat.pos_iff_ne_zero]
  · split_ifs <;> simp [hm'.mem_keys_iff, hm.mem_keys_iff, ha]

theorem Exact.settle {src' : TrackNamespace → Nat} {announced : GoMap TrackNamespace Nat}
    {ms : List SubMessage} (h : e.Exact src) (hc : Counts announced (under src' pfx))
    (hr : run View.receive ⟨e.nsPrefix, e.announced.keys.toFinset⟩ ms =
      some ⟨pfx, announced.keys.toFinset⟩) (clock : Nat → Nat) :
    Exact src' (enqueueAll clock { e with nsPrefix := pfx, announced := announced } ms) :=
  ⟨hc, h.replays.pushAll hr⟩

theorem Exact.addSource (h : e.Exact src) (hw : e.wantsTracks = false) (clock : Nat → Nat)
    (ns : TrackNamespace) : (e.addSource clock ns).Exact (update src ns (src ns + 1)) := by
  by_cases hp : e.nsPrefix <+: ns
  · have hn : under src e.nsPrefix ns = src ns := if_pos hp
    have hc : Counts (more e.announced ns 1)
        (under (update src ns (src ns + 1)) e.nsPrefix) := by
      rw [under_update hp, ← hn]
      exact h.counts.more ns Nat.one_pos
    have hkeys := keys_update hp h.counts hc
    rw [if_neg (Nat.succ_ne_zero _)] at hkeys
    rw [SubscriberEntry.addSource, if_neg (by simp [hw, hp])]
    dsimp only
    split
    · next h1 =>
      have hnew : ns ∉ e.announced.keys.toFinset := by
        rw [mem_toFinset, h.counts.mem_keys_iff, h.counts.more_eq_one.mp h1]
        exact Nat.lt_irrefl 0
      refine h.settle hc ?_ clock
      rw [run_singleton, View.receive_namespaceMessage hp, Edit.strict_add hnew,
        Option.map_some, hkeys]
    · next h1 =>
      refine ⟨hc, ?_⟩
      have hold : ns ∈ e.announced.keys.toFinset := by
        rw [mem_toFinset, h.counts.mem_keys_iff]
        exact Nat.pos_of_ne_zero fun h0 => h1 (h.counts.more_eq_one.mpr h0)
      rw [hkeys, Finset.insert_eq_of_mem hold]
      exact h.replays
  · have hskip : e.addSource clock ns = e := by
      have : ns.hasPrefix e.nsPrefix = false := by
        rwa [← Bool.not_eq_true, TrackNamespace.hasPrefix_iff]
      simp [SubscriberEntry.addSource, this]
    rw [hskip]
    refine ⟨?_, h.replays⟩
    rw [under_update_of_not_covered hp]
    exact h.counts

theorem Exact.removeSource (h : e.Exact src) (hw : e.wantsTracks = false) (clock : Nat → Nat)
    (hs : 0 < src ns) : (e.removeSource clock ns).Exact (update src ns (src ns - 1)) := by
  by_cases hp : e.nsPrefix <+: ns
  · have hn : under src e.nsPrefix ns = src ns := if_pos hp
    have hc : Counts (less e.announced ns)
        (under (update src ns (src ns - 1)) e.nsPrefix) := by
      rw [under_update hp, ← hn]
      exact h.counts.less ns
    have hkeys := keys_update hp h.counts hc
    have hmem : ns ∈ e.announced.keys.toFinset := by
      rw [mem_toFinset, h.counts.mem_keys_iff, hn]
      exact hs
    have hcounted : (e.announced.lookup ns).getD 0 ≠ 0 := by
      rw [h.counts.getD, hn]
      exact Nat.pos_iff_ne_zero.mp hs
    rw [SubscriberEntry.removeSource, if_neg (by simp [hw, hcounted])]
    dsimp only
    split
    · next h1 =>
      have hlast : src ns = 1 := by
        rw [← hn]
        exact (h.counts.less_eq_none (hn ▸ hs)).mp h1
      rw [if_pos (by rw [hlast])] at hkeys
      refine h.settle hc ?_ clock
      rw [run_singleton, View.receive_namespaceDoneMessage hp, Edit.strict_remove hmem,
        Option.map_some, hkeys]
    · next h1 =>
      refine ⟨hc, ?_⟩
      have hlast : src ns ≠ 1 := by
        rw [← hn]
        exact fun h0 => h1 ((h.counts.less_eq_none (hn ▸ hs)).mpr h0)
      rw [if_neg (by omega), Finset.insert_eq_of_mem hmem] at hkeys
      rw [hkeys]
      exact h.replays
  · have hskip : e.removeSource clock ns = e := by
      have : (e.announced.lookup ns).getD 0 = 0 := by
        rw [h.counts.getD, under, if_neg hp]
      simp [SubscriberEntry.removeSource, this]
    rw [hskip]
    refine ⟨?_, h.replays⟩
    rw [under_update_of_not_covered hp]
    exact h.counts

theorem covered_of_mem_keys {m : GoMap TrackNamespace Nat} (h : Counts m (under src pfx))
    (hm : ns ∈ m.keys) : pfx <+: ns := by
  by_contra hp
  have hpos : 0 < under src pfx ns := h.mem_keys_iff.mp hm
  rw [under, if_neg hp] at hpos
  exact Nat.lt_irrefl 0 hpos

/-- An update ends what the new prefix does not cover under the old one, and announces what
    only the new one covers under the new one. -/
theorem Exact.updatePrefix {oldNames dones news : List TrackNamespace} (h : e.Exact src)
    (hw : e.wantsTracks = false) (hc : Counts counts (under src pfx))
    (hold : ∀ ns, 0 < under src e.nsPrefix ns → ns ∈ oldNames)
    (hdones : dones.Perm (e.announced.keys.filter (· ∉ counts.keys)))
    (hnews : news.Perm (counts.keys.filter (· ∉ e.announced.keys))) (clock : Nat → Nat) :
    (e.updatePrefix clock pfx counts oldNames dones news).Exact src := by
  have hmemd : ∀ ns, ns ∈ dones ↔ ns ∈ e.announced.keys ∧ ns ∉ counts.keys := by
    intro ns
    rw [hdones.mem_iff, mem_filter, decide_eq_true_iff]
  have hmemn : ∀ ns, ns ∈ news ↔ ns ∈ counts.keys ∧ ns ∉ e.announced.keys := by
    intro ns
    rw [hnews.mem_iff, mem_filter, decide_eq_true_iff]
  have hmap : dones.map (fun k => namespaceDoneMessage (nameOf oldNames k) e.nsPrefix) =
      dones.map (namespaceDoneMessage · e.nsPrefix) := by
    refine map_congr_left fun k hk => ?_
    have hk' := h.counts.mem_keys_iff.mp ((hmemd k).mp hk).1
    rw [nameOf, if_pos (hold k hk')]
  have hends : run View.receive ⟨e.nsPrefix, e.announced.keys.toFinset⟩
      (dones.map (namespaceDoneMessage · e.nsPrefix)) =
        some ⟨e.nsPrefix, e.announced.keys.toFinset \ dones.toFinset⟩ := by
    apply View.run_end
    · exact fun ns hns => covered_of_mem_keys h.counts ((hmemd ns).mp hns).1
    · exact hdones.nodup_iff.mpr (e.announced.nodupKeys.filter _)
    · exact fun ns hns => mem_toFinset.mpr ((hmemd ns).mp hns).1
  have hnamed : run View.receive ⟨pfx, e.announced.keys.toFinset \ dones.toFinset⟩
      (news.map (namespaceMessage · pfx)) = some ⟨pfx, counts.keys.toFinset⟩ := by
    rw [View.run_announce]
    · congr 2
      ext ns
      simp only [Finset.mem_union, Finset.mem_sdiff, mem_toFinset, hmemd, hmemn]
      tauto
    · exact fun ns hns => covered_of_mem_keys hc ((hmemn ns).mp hns).1
    · exact hnews.nodup_iff.mpr (counts.nodupKeys.filter _)
    · intro ns hns hin
      exact ((hmemn ns).mp hns).2 (mem_toFinset.mp (Finset.mem_sdiff.mp hin).1)
  rw [SubscriberEntry.updatePrefix, if_neg (by simp [hw]), hmap]
  refine h.settle hc ?_ clock
  refine run_append.mpr ⟨_, hends, run_cons.mpr ⟨_, rfl, hnamed⟩⟩

theorem Exact.registered {names : List TrackNamespace} (hc : Counts counts (under src pfx))
    (hn : names.Nodup) (hm : ∀ ns, ns ∈ names ↔ ns ∈ counts.keys) (session : SessionID)
    (clock : Nat → Nat) : Exact src
      (enqueueAll clock
        { nsPrefix := pfx, session := session, wantsTracks := false, announced := counts }
        (names.map (namespaceMessage · pfx))) := by
  refine ⟨hc, ?_⟩
  apply Outbox.Replays.pushAll (v := .start pfx) ⟨⟨_, rfl⟩, fun _ => rfl⟩
  rw [View.start, View.run_announce]
  · congr 2
    ext ns
    show ns ∈ ∅ ∪ names.toFinset ↔ ns ∈ counts.keys.toFinset
    simp [hm]
  · exact fun ns hns => covered_of_mem_keys hc ((hm ns).mp hns)
  · exact hn
  · exact fun ns _ => Finset.notMem_empty ns

end SubscriberEntry
end MoqGo.Relay
