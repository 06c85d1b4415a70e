import Mathlib.Data.List.Perm.Basic
import MoqGo.Lib.Counts
import MoqGo.Lib.Runs
import MoqGo.Wire.Namespace

/-!
# Forwarded PUBLISHes (`pkg/relay/handler_forward.go`)

A session with SUBSCRIBE_TRACKS subscriptions is sent a PUBLISH for each track under one of
their prefixes. `forwardTrack` makes one such offer: it tests the subscription's prefix and the
session's own SUBSCRIBEs, **claims** the track on the SUBSCRIBE_TRACKS entry, looks for a
downstream the session already has, and only then opens the PUBLISH; the claim is released when
the PUBLISH has its downstream registered. Any number of offers run at once, on any of the
session's entries, while updates move the entries' prefixes.

The model is of one track on one session, and the state holds every **call** that is under way,
named by the step it takes next. The track may be gone from the registry and come back, under a
new `TrackEntry`; a call goes on with the one it was given, while the registration at its end is
with the one the registry has.

The claim is kept per SUBSCRIBE_TRACKS entry, and so two offers on *different* entries may both
look before either registers. It is released before a PUBLISH that could not be registered is
ended, and the look is made at the `TrackEntry` the offer began with, which need not be where
another offer has registered. What the claim does give is one PUBLISH at a time as long as no
offer looks in one of these three situations.
-/

namespace MoqGo.Relay
namespace Forward

open Lib Wire List

/-! ## `prefixSet` -/

def overlap (have_ pfx : TrackNamespace) : Bool :=
  have_.hasPrefix pfx || pfx.hasPrefix have_

/-- `prefixSet.reserve`. -/
def reserve (prefixes : List TrackNamespace) (pfx : TrackNamespace) :
    Option (List TrackNamespace) :=
  if prefixes.any (overlap · pfx) then none else some (prefixes ++ [pfx])

/-- `prefixSet.replace`: `pfx` in the place of `old`, which is the caller's own reservation. -/
def replace (prefixes : List TrackNamespace) (old pfx : TrackNamespace) :
    Option (List TrackNamespace) :=
  if (prefixes.erase old).any (overlap · pfx) then none
  else if old ∈ prefixes then some (prefixes.set (prefixes.idxOf old) pfx)
  else none

/-- `prefixSet.release`. -/
def release (prefixes : List TrackNamespace) (pfx : TrackNamespace) : List TrackNamespace :=
  prefixes.erase pfx

/-- No two reservations overlap. -/
def Apart (prefixes : List TrackNamespace) : Prop :=
  prefixes.Pairwise fun p q => overlap p q = false

theorem overlap_comm (p q : TrackNamespace) : overlap p q = overlap q p :=
  Bool.or_comm _ _

variable {prefixes prefixes' : List TrackNamespace}

theorem Apart.reserve {pfx : TrackNamespace} (h : Apart prefixes)
    (hr : reserve prefixes pfx = some prefixes') : Apart prefixes' := by
  simp only [Forward.reserve, unless_iff] at hr
  obtain ⟨hnone, rfl⟩ := hr
  apply pairwise_append.mpr
  refine ⟨h, pairwise_singleton _ _, fun p hp q hq => ?_⟩
  obtain rfl := mem_singleton.mp hq
  simp only [any_eq_true, not_exists, not_and, Bool.not_eq_true] at hnone
  exact hnone p hp

/-- The place of `old` does not matter: the list is `old` and the others, up to their order. -/
theorem Apart.replace {old pfx : TrackNamespace} (h : Apart prefixes)
    (hr : replace prefixes old pfx = some prefixes') : Apart prefixes' := by
  simp only [Forward.replace, Option.ite_none_left_eq_some, Option.ite_none_right_eq_some,
    Option.some.injEq] at hr
  obtain ⟨hnone, hold, rfl⟩ := hr
  have hperm : (prefixes.set (prefixes.idxOf old) pfx).Perm (pfx :: prefixes.erase old) := by
    rw [← eraseIdx_idxOf_eq_erase old prefixes]
    exact set_perm_cons_eraseIdx (idxOf_lt_length_of_mem hold) pfx
  refine hperm.symm.pairwise ?_ fun {p q} hpq => (overlap_comm q p).trans hpq
  refine pairwise_cons.mpr ⟨fun q hq => ?_, List.Pairwise.sublist erase_sublist h⟩
  simp only [any_eq_true, not_exists, not_and, Bool.not_eq_true] at hnone
  exact (overlap_comm pfx q).trans (hnone q hq)

theorem Apart.release (h : Apart prefixes) (pfx : TrackNamespace) : Apart (release prefixes pfx) :=
  List.Pairwise.sublist erase_sublist h

/-! ## The state -/

/-- A SUBSCRIBE_TRACKS subscription of the session. -/
abbrev EntryID := Nat

/-- A `TrackEntry` the registry made for the track. -/
abbrev TrackID := Nat

/-- What a `SubscriberEntry` keeps for the track, and its handler's own `prefix`. -/
structure TracksEntry where
  nsPrefix : TrackNamespace
  /-- The handler's `prefix`, which it holds in the session's `prefixSet`. -/
  reserved : TrackNamespace
  /-- The track's key is in `forwarding`. -/
  forwarding : Bool
  /-- The entry is unregistered. -/
  fwdClosed : Bool
  /-- The upstream epoch of the last PUBLISH_SKIPPED for the track. -/
  skipped : Option Nat
  deriving DecidableEq

/-- `ClaimForward`'s answer. -/
def TracksEntry.free (e : TracksEntry) (epoch : Nat) : Bool :=
  !e.forwarding && !e.fwdClosed && e.skipped.all (· < epoch)

/-- What `OpenPublish` returns. -/
inductive Opened where
  | stream
  | noStreamCredit
  | failed
  deriving DecidableEq

/-- A call under way, by the step it takes next. The constructors up to `releasing` are
    `forwardTrack`'s, on an entry and with a `TrackEntry`; then come `serveForwardedPublish`'s up
    to its end without a registration, and the handler's own. -/
inductive Call where
  /-- `HasPrefix(sub.Prefix())`. -/
  | start (e : EntryID) (te : TrackID)
  /-- `holdForward`. -/
  | holding (e : EntryID) (te : TrackID)
  /-- `te.UpstreamEpoch()`. -/
  | reading (e : EntryID) (te : TrackID)
  /-- `ClaimForward`. -/
  | claiming (e : EntryID) (te : TrackID) (epoch : Nat)
  /-- `HasDownstreamOn`, with the claim. -/
  | checking (e : EntryID) (te : TrackID) (epoch : Nat)
  /-- `OpenPublish`. -/
  | opening (e : EntryID) (epoch : Nat)
  /-- `emitPublishSkipped`: `PublishSkipped`. -/
  | skipping (e : EntryID) (epoch : Nat)
  /-- `emitPublishSkipped`: `NoteSkipped`. -/
  | noting (e : EntryID) (epoch : Nat)
  /-- `ReleaseForward`, without a PUBLISH. -/
  | releasing (e : EntryID)
  /-- `AddDownstreamSnapshotLargest`, the PUBLISH being open. -/
  | registering (e : EntryID)
  /-- `registered()`, which releases the claim. -/
  | registered (e : EntryID) (added : Bool)
  /-- `TerminateWithPublishDone`, of a PUBLISH that was not added. -/
  | ending
  /-- `tracksUpdate`, the prefix replaced: `UpdatePrefix`. -/
  | updating (e : EntryID) (pfx : TrackNamespace)
  /-- `handleSubscribeTracks`, unregistered: `trackPrefixes.release`. -/
  | unreserving (e : EntryID)
  deriving DecidableEq

structure State where
  entries : EntryID → TracksEntry
  /-- The entries made so far. -/
  made : Nat
  /-- `trackPrefixes`. -/
  prefixes : List TrackNamespace
  /-- The session's SUBSCRIBEs for the track in flight, and the forwards held back meanwhile. -/
  subscribing : Nat
  held : List EntryID
  /-- The registry's entry for the track, and how many it has made. -/
  current : Option TrackID
  tracks : Nat
  /-- `len(entry.Upstream) != 0`, of the registry's entry. -/
  upstream : Bool
  upstreamEpoch : TrackID → Nat
  /-- `upstreamEpochs`, which every track's upstreams are numbered from. -/
  upstreamEpochs : Nat
  /-- The session's downstreams that are not terminated, each by the `TrackEntry` it is on: those
      of its own SUBSCRIBEs, and those of forwarded PUBLISHes. -/
  own : List TrackID
  forwarded : List TrackID
  calls : List Call

/-- A session without subscriptions, and a track nobody publishes. -/
def init : State where
  entries _ := ⟨[], [], false, true, none⟩
  made := 0
  prefixes := []
  subscribing := 0
  held := []
  current := none
  tracks := 0
  upstream := false
  upstreamEpoch _ := 0
  upstreamEpochs := 0
  own := []
  forwarded := []
  calls := []

namespace State

/-- The call has taken its step. -/
def leave (s : State) (c : Call) : State := { s with calls := s.calls.erase c }

def enter (s : State) (c : Call) : State := { s with calls := c :: s.calls }

def setEntry (s : State) (e : EntryID) (f : TracksEntry → TracksEntry) : State :=
  { s with entries := Function.update s.entries e (f (s.entries e)) }

/-- `HasDownstreamOn`: `e.Downstream` has one of this session that is not terminated. -/
def hasDownstreamOn (s : State) (te : TrackID) : Bool :=
  s.own.contains te || s.forwarded.contains te

/-- `AddDownstreamSnapshotLargest`: the entry it adds the downstream to. -/
def addsTo (s : State) : Option TrackID :=
  if s.upstream then s.current else none

end State

/-! ## The steps -/

section Steps

variable (ns : TrackNamespace)

/-- The step of a call, which has been taken off the list. `opened` is what `OpenPublish` returns,
    where that is the step. -/
def advance (s : State) (opened : Opened) : Call → State
  | .start e te =>
    if ns.hasPrefix (s.entries e).nsPrefix then s.enter (.holding e te) else s
  | .holding e te =>
    if s.subscribing = 0 then s.enter (.reading e te)
    else if e ∈ s.held then s
    else { s with held := s.held ++ [e] }
  | .reading e te => s.enter (.claiming e te (s.upstreamEpoch te))
  | .claiming e te epoch =>
    if (s.entries e).free epoch then
      (s.setEntry e ({ · with forwarding := true })).enter (.checking e te epoch)
    else s
  | .checking e te epoch =>
    if s.hasDownstreamOn te then s.enter (.releasing e) else s.enter (.opening e epoch)
  | .opening e epoch =>
    match opened with
    | .stream => s.enter (.registering e)
    | .noStreamCredit => s.enter (.skipping e epoch)
    | .failed => s.enter (.releasing e)
  | .skipping e epoch =>
    if ns.hasPrefix (s.entries e).nsPrefix then s.enter (.noting e epoch)
    else s.enter (.releasing e)
  | .noting e epoch =>
    (s.setEntry e ({ · with skipped := some epoch })).enter (.releasing e)
  | .releasing e => s.setEntry e ({ · with forwarding := false })
  | .registering e =>
    match s.addsTo with
    | some te => { s with forwarded := te :: s.forwarded }.enter (.registered e true)
    | none => s.enter (.registered e false)
  | .registered e true => s.setEntry e ({ · with forwarding := false })
  | .registered e false => (s.setEntry e ({ · with forwarding := false })).enter .ending
  | .ending => s
  | .updating e pfx => s.setEntry e ({ · with nsPrefix := pfx })
  | .unreserving e => { s with prefixes := release s.prefixes (s.entries e).reserved }

inductive Act where
  /-- A SUBSCRIBE_TRACKS: its prefix is reserved and its entry registered. -/
  | subscribeTracks (pfx : TrackNamespace)
  /-- The SUBSCRIBE_TRACKS ends: `UnregisterSubscriber`. -/
  | unregister (e : EntryID)
  /-- A REQUEST_UPDATE with a prefix: `trackPrefixes.replace`. -/
  | updatePrefix (e : EntryID) (pfx : TrackNamespace)
  /-- `ForwardTrack` is called, with an entry of the track the caller got from the registry. -/
  | forward (e : EntryID) (te : TrackID)
  /-- The next step of a call. -/
  | go (c : Call) (opened : Opened)
  /-- `forwardTrack` returns at the GOAWAY, Range Filter or `HasUpstreamOn` test. -/
  | decline (e : EntryID) (te : TrackID)
  /-- A SUBSCRIBE for the track: in flight, registered, no longer in flight, ended. -/
  | beginSubscribe
  | addDownstream
  | endSubscribe (established : Bool)
  | endOwn (te : TrackID)
  /-- A forwarded PUBLISH's subscription is terminated, by either side. -/
  | endForwarded (te : TrackID)
  /-- The registry: an upstream comes, the last one goes, the entry is deleted. -/
  | addUpstream (epoch : Nat)
  | loseUpstream
  | deleteEntry

def Call.updates (e : EntryID) : Call → Bool
  | .updating e' _ => e' = e
  | _ => false

/-- `end`, when it was the last SUBSCRIBE in flight: the forwards held back are offered again. -/
def replay (s : State) (established : Bool) : List Call :=
  match s.current with
  | some te => if established then s.held.map (.start · te) else []
  | none => []

def step (s : State) : Act → Option State
  | .subscribeTracks pfx =>
    match reserve s.prefixes pfx with
    | none => some s
    | some prefixes => some { s with
        prefixes := prefixes
        made := s.made + 1
        entries := Function.update s.entries s.made ⟨pfx, pfx, false, false, none⟩ }
  | .unregister e =>
    if (s.entries e).fwdClosed || s.calls.any (·.updates e) then none
    else some ((s.setEntry e ({ · with fwdClosed := true })).enter (.unreserving e))
  | .updatePrefix e pfx =>
    if (s.entries e).fwdClosed || s.calls.any (·.updates e) then none
    else match replace s.prefixes (s.entries e).reserved pfx with
      | none => some s
      | some prefixes => some (({ s with prefixes := prefixes }.setEntry e
          ({ · with reserved := pfx })).enter (.updating e pfx))
  | .forward e te => if e < s.made ∧ te < s.tracks then some (s.enter (.start e te)) else none
  | .go c opened => if c ∈ s.calls then some (advance ns (s.leave c) opened c) else none
  | .decline e te =>
    if .start e te ∈ s.calls then some (s.leave (.start e te))
    else if .holding e te ∈ s.calls then some (s.leave (.holding e te))
    else none
  | .beginSubscribe => some { s with subscribing := s.subscribing + 1 }
  | .addDownstream =>
    match s.addsTo with
    | some te => if s.subscribing = 0 then none else some { s with own := te :: s.own }
    | none => none
  | .endSubscribe established =>
    if s.subscribing = 0 then none
    else if s.subscribing = 1 then some { s with
      subscribing := 0
      held := []
      calls := replay s established ++ s.calls }
    else some { s with subscribing := s.subscribing - 1 }
  | .endOwn te => some { s with own := s.own.erase te }
  | .endForwarded te => some { s with forwarded := s.forwarded.erase te }
  | .addUpstream epoch =>
    -- The numbers in between went to upstreams of other tracks.
    if epoch ≤ s.upstreamEpochs then none
    else match s.current with
      | some te => some { s with
          upstream := true
          upstreamEpochs := epoch
          upstreamEpoch := Function.update s.upstreamEpoch te epoch }
      | none => some { s with
          current := some s.tracks
          tracks := s.tracks + 1
          upstream := true
          upstreamEpochs := epoch
          upstreamEpoch := Function.update s.upstreamEpoch s.tracks epoch }
  | .loseUpstream => some { s with upstream := false }
  | .deleteEntry =>
    match s.current with
    | some te =>
      if s.upstream || s.hasDownstreamOn te then none else some { s with current := none }
    | none => none

end Steps

/-! ## What a call holds -/

/-- The call has the claim on the entry. -/
def Call.holds (e : EntryID) : Call → Bool
  | .checking e' _ _ | .opening e' _ | .skipping e' _ | .noting e' _ | .releasing e'
  | .registering e' | .registered e' _ => e' = e
  | _ => false

def Call.carries : Call → Bool
  | .registering _ | .registered _ false | .ending => true
  | _ => false

/-- The call has found no downstream, and its PUBLISH may be open without one. -/
def Call.pending : Call → Bool
  | .opening _ _ => true
  | c => c.carries

/-- The forwarded PUBLISHes that are open on the session: registered and not terminated, or sent
    and not registered yet. -/
def State.openPublishes (s : State) : Nat := s.forwarded.length + s.calls.countP Call.carries

variable {ns : TrackNamespace} {s s' : State} {c : Call} {e : EntryID} {epoch : Nat} {a : Act}

@[simp] theorem State.enter_calls (s : State) (c : Call) : (s.enter c).calls = c :: s.calls := rfl

theorem State.countP_leave (hc : c ∈ s.calls) (p : Call → Bool) :
    (s.leave c).calls.countP p + (p c).toNat = s.calls.countP p := by
  rw [(perm_cons_erase hc).countP_eq p, countP_cons]
  cases h : p c <;> simp [State.leave]

theorem State.countP_enter (s : State) (c : Call) (p : Call → Bool) :
    (s.enter c).calls.countP p = s.calls.countP p + (p c).toNat := by
  rw [State.enter_calls, countP_cons]
  cases p c <;> rfl

/-! ### What a step can be -/

/-- Nothing that is kept of the session's offers has changed. -/
structure Quiet (s s' : State) : Prop where
  entries : s'.entries = s.entries
  made : s'.made = s.made
  calls : s'.calls = s.calls
  prefixes : s'.prefixes = s.prefixes
  forwarded : s'.forwarded.length ≤ s.forwarded.length

/-- A step, as far as the session's offers are concerned. -/
inductive Steps (ns : TrackNamespace) (s : State) : Act → State → Prop where
  /-- `ForwardTrack` is called for each of these, if any. -/
  | forwards (cs : List Call) {a : Act} {s' : State} (hcs : ∀ c ∈ cs, ∃ e te, c = .start e te)
      (h : Quiet { s with calls := cs ++ s.calls } s') : Steps ns s a s'
  | subscribeTracks {pfx : TrackNamespace} {prefixes : List TrackNamespace}
      (h : reserve s.prefixes pfx = some prefixes) : Steps ns s (.subscribeTracks pfx) { s with
        prefixes := prefixes
        made := s.made + 1
        entries := Function.update s.entries s.made ⟨pfx, pfx, false, false, none⟩ }
  | unregister {e : EntryID} : Steps ns s (.unregister e)
      ((s.setEntry e ({ · with fwdClosed := true })).enter (.unreserving e))
  | updatePrefix {e : EntryID} {pfx : TrackNamespace} {prefixes : List TrackNamespace}
      (h : replace s.prefixes (s.entries e).reserved pfx = some prefixes) :
      Steps ns s (.updatePrefix e pfx) (({ s with prefixes := prefixes }.setEntry e
        ({ · with reserved := pfx })).enter (.updating e pfx))
  | go {c : Call} (hc : c ∈ s.calls) (opened : Opened) :
      Steps ns s (.go c opened) (advance ns (s.leave c) opened c)
  /-- An offer is given up before it has claimed anything. -/
  | decline {c : Call} {a : Act} (hc : c ∈ s.calls)
      (hnone : (∀ e, c.holds e = false) ∧ c.pending = false) : Steps ns s a (s.leave c)

theorem replay_start (s : State) (established : Bool) :
    ∀ c ∈ replay s established, ∃ e te, c = .start e te := by
  intro c hc
  simp only [replay] at hc
  split at hc
  · next te _ =>
    split at hc
    · obtain ⟨e, -, rfl⟩ := mem_map.mp hc
      exact ⟨e, te, rfl⟩
    · cases hc
  · cases hc

theorem steps_of_step (hs : step ns s a = some s') : Steps ns s a s' := by
  have hquiet {a : Act} {s' : State} (h : Quiet s s') : Steps ns s a s' :=
    .forwards [] (forall_mem_nil _) ⟨h.1, h.2, h.3, h.4, h.5⟩
  cases a with
  | subscribeTracks pfx =>
    simp only [step] at hs
    split at hs <;> cases hs
    · exact hquiet ⟨rfl, rfl, rfl, rfl, le_rfl⟩
    · next hr => exact .subscribeTracks hr
  | unregister e =>
    simp only [step, unless_iff] at hs
    obtain ⟨-, rfl⟩ := hs
    exact .unregister
  | updatePrefix e pfx =>
    simp only [step, Option.ite_none_left_eq_some] at hs
    obtain ⟨-, hs⟩ := hs
    split at hs <;> cases hs
    · exact hquiet ⟨rfl, rfl, rfl, rfl, le_rfl⟩
    · next hr => exact .updatePrefix hr
  | forward e te =>
    obtain ⟨-, rfl⟩ := guard_iff.mp hs
    exact .forwards [.start e te] (forall_mem_singleton.mpr ⟨e, te, rfl⟩)
      ⟨rfl, rfl, rfl, rfl, le_rfl⟩
  | go c opened =>
    obtain ⟨hc, rfl⟩ := guard_iff.mp hs
    exact .go hc opened
  | decline e te =>
    simp only [step] at hs
    split_ifs at hs with hc hc <;> cases hs <;> exact .decline hc ⟨fun _ => rfl, rfl⟩
  | endSubscribe established =>
    simp only [step, Option.ite_none_left_eq_some] at hs
    obtain ⟨-, hs⟩ := hs
    split at hs <;> cases hs
    · exact .forwards _ (replay_start s established) ⟨rfl, rfl, rfl, rfl, le_rfl⟩
    · exact hquiet ⟨rfl, rfl, rfl, rfl, le_rfl⟩
  | endForwarded te =>
    cases hs
    exact hquiet ⟨rfl, rfl, rfl, rfl, length_erase_le⟩
  | addDownstream | addUpstream | deleteEntry | beginSubscribe | endOwn | loseUpstream =>
    simp only [step] at hs
    repeat' split at hs
    all_goals cases hs
    all_goals exact hquiet ⟨rfl, rfl, rfl, rfl, le_rfl⟩

theorem countP_forwards {cs calls : List Call} (hcs : ∀ c ∈ cs, ∃ e te, c = .start e te)
    {p : Call → Bool} (hp : ∀ e te, p (.start e te) = false) :
    (cs ++ calls).countP p = calls.countP p := by
  have hzero : cs.countP p = 0 := by
    apply countP_eq_zero.mpr
    intro c hc
    obtain ⟨e, te, rfl⟩ := hcs c hc
    rw [hp e te]
    exact Bool.false_ne_true
  rw [countP_append, hzero, Nat.zero_add]

/-! ### The claim is exclusive -/

/-- An entry's claim is set exactly while one call has it. Entries not made yet are closed, which
    keeps them from being claimed. -/
structure Claimed (s : State) : Prop where
  unmade : ∀ e, s.made ≤ e → (s.entries e).fwdClosed = true ∧ (s.entries e).forwarding = false
  holders : ∀ e, s.calls.countP (Call.holds e) = (s.entries e).forwarding.toNat

theorem claimed_init : Claimed init where
  unmade _ _ := ⟨rfl, rfl⟩
  holders _ := rfl

section

variable (h : Claimed s)
include h

theorem Claimed.frame (hmade : s'.made = s.made)
    (hclosed : ∀ e, (s.entries e).fwdClosed = true → (s'.entries e).fwdClosed = true)
    (hforwarding : ∀ e, (s'.entries e).forwarding = (s.entries e).forwarding)
    (hcalls : ∀ e, s'.calls.countP (Call.holds e) = s.calls.countP (Call.holds e)) :
    Claimed s' := by
  refine ⟨fun e he => ?_, fun e => ?_⟩
  · obtain ⟨hc, hf⟩ := h.unmade e (hmade ▸ he)
    exact ⟨hclosed e hc, (hforwarding e).trans hf⟩
  · rw [hcalls e, hforwarding e, h.holders e]

theorem Claimed.pass (hc : c ∈ s.calls) {c' : Call}
    (hsame : ∀ e, c'.holds e = c.holds e) : Claimed ((s.leave c).enter c') := by
  refine h.frame rfl (fun _ hc => hc) (fun _ => rfl) fun e => ?_
  rw [State.countP_enter, hsame e, State.countP_leave hc]

theorem Claimed.done (hc : c ∈ s.calls) (hnone : ∀ e, c.holds e = false) : Claimed (s.leave c) := by
  refine h.frame rfl (fun _ hc => hc) (fun _ => rfl) fun e => ?_
  have hcount := State.countP_leave hc (Call.holds e)
  rwa [hnone e, Bool.toNat_false, Nat.add_zero] at hcount

theorem Claimed.enter (hnone : ∀ e, c.holds e = false) : Claimed (s.enter c) := by
  refine h.frame rfl (fun _ hc => hc) (fun _ => rfl) fun e => ?_
  rw [State.countP_enter, hnone e, Bool.toNat_false, Nat.add_zero]

theorem Claimed.setEntry (e : EntryID) (f : TracksEntry → TracksEntry)
    (hclosed : ∀ t, t.fwdClosed = true → (f t).fwdClosed = true)
    (hforwarding : ∀ t, (f t).forwarding = t.forwarding) : Claimed (s.setEntry e f) := by
  refine h.frame rfl (fun e' hc => ?_) (fun e' => ?_) fun _ => rfl
  · rcases eq_or_ne e' e with rfl | hne
    · simpa [State.setEntry] using hclosed _ hc
    · simpa [State.setEntry, hne] using hc
  · rcases eq_or_ne e' e with rfl | hne
    · simp [State.setEntry, hforwarding]
    · simp [State.setEntry, hne]

theorem Claimed.claim (hc : c ∈ s.calls) (hnone : ∀ e, c.holds e = false)
    (hfree : (s.entries e).free epoch = true) {c' : Call}
    (hholds : ∀ e', c'.holds e' = decide (e = e')) :
    Claimed (((s.leave c).setEntry e ({ · with forwarding := true })).enter c') := by
  simp only [TracksEntry.free, Bool.and_eq_true, Bool.not_eq_true'] at hfree
  have hdone := h.done hc hnone
  refine ⟨fun e' he => ?_, fun e' => ?_⟩
  · have hunmade := h.unmade e' he
    have hne : e' ≠ e := by
      intro heq
      rw [heq, hfree.1.2] at hunmade
      cases hunmade.1
    simpa [State.enter, State.setEntry, State.leave, hne] using hunmade
  · have hcount := hdone.holders e'
    rw [State.countP_enter, hholds e']
    rcases eq_or_ne e' e with rfl | hne
    · have hzero : (s.leave c).calls.countP (Call.holds e') = 0 := by
        rw [hcount]
        exact congrArg Bool.toNat hfree.1.1
      simp [State.enter, State.setEntry, hzero]
    · simpa [State.enter, State.setEntry, hne, hne.symm] using hcount

theorem Claimed.release (hc : c ∈ s.calls) (hholds : ∀ e', c.holds e' = decide (e = e')) :
    Claimed ((s.leave c).setEntry e ({ · with forwarding := false })) := by
  refine ⟨fun e' he => ?_, fun e' => ?_⟩
  · have hunmade := h.unmade e' he
    rcases eq_or_ne e' e with rfl | hne
    · simpa [State.setEntry, State.leave] using hunmade.1
    · simpa [State.setEntry, State.leave, hne] using hunmade
  · have hcount := State.countP_leave hc (Call.holds e')
    rw [h.holders e', hholds e'] at hcount
    rcases eq_or_ne e' e with rfl | hne
    · have hone := Bool.toNat_le (s.entries e').forwarding
      simp only [decide_true, Bool.toNat_true] at hcount
      have hzero : (s.leave c).calls.countP (Call.holds e') = 0 := by omega
      simpa [State.setEntry] using hzero
    · simpa [State.setEntry, State.leave, hne, hne.symm] using hcount

theorem Claimed.advance (hc : c ∈ s.calls) (opened : Opened) :
    Claimed (advance ns (s.leave c) opened c) := by
  cases c with
  | claiming e te epoch =>
    simp only [Forward.advance]
    split
    · next hfree => exact h.claim hc (fun _ => rfl) hfree fun _ => rfl
    · exact h.done hc fun _ => rfl
  | opening e epoch => cases opened <;> exact h.pass hc fun _ => rfl
  | noting e epoch =>
    have hpass : Claimed ((s.leave (.noting e epoch)).enter (.releasing e)) :=
      h.pass hc fun _ => rfl
    exact hpass.setEntry e ({ · with skipped := some epoch }) (fun _ hc => hc) fun _ => rfl
  | releasing e => exact h.release hc fun _ => rfl
  | registering e =>
    simp only [Forward.advance]
    split
    · have hpass : Claimed ((s.leave (.registering e)).enter (.registered e true)) :=
        h.pass hc fun _ => rfl
      exact ⟨hpass.unmade, hpass.holders⟩
    · exact h.pass hc fun _ => rfl
  | registered e added =>
    have hrelease := h.release hc fun _ => rfl
    cases added with
    | true => exact hrelease
    | false => exact hrelease.enter fun _ => rfl
  | updating e pfx =>
    have hdone := h.done hc fun _ => rfl
    exact hdone.setEntry e ({ · with nsPrefix := pfx }) (fun _ hc => hc) fun _ => rfl
  | start | holding | reading | checking | skipping | ending | unreserving =>
    -- The call goes on, or ends without a claim.
    simp only [Forward.advance]
    repeat' split
    all_goals first
      | exact h.pass hc fun _ => rfl
      | exact ⟨(h.done hc fun _ => rfl).unmade, (h.done hc fun _ => rfl).holders⟩

theorem Claimed.subscribeTracks (prefixes : List TrackNamespace) (pfx : TrackNamespace) :
    Claimed { s with
      prefixes := prefixes
      made := s.made + 1
      entries := Function.update s.entries s.made ⟨pfx, pfx, false, false, none⟩ } := by
  refine ⟨fun e he => ?_, fun e => ?_⟩
  · have hne : e ≠ s.made := Nat.ne_of_gt he
    simpa [hne] using h.unmade e (Nat.le_of_succ_le he)
  · rcases eq_or_ne e s.made with rfl | hne
    · simpa [(h.unmade s.made le_rfl).2] using h.holders s.made
    · simpa [hne] using h.holders e

theorem Claimed.step (hs : step ns s a = some s') : Claimed s' := by
  cases steps_of_step hs with
  | forwards cs hcs hq =>
    refine h.frame hq.made (fun e hc => hq.entries ▸ hc) (fun e => by rw [hq.entries]) fun e => ?_
    rw [hq.calls]
    exact countP_forwards hcs fun _ _ => rfl
  | subscribeTracks => exact h.subscribeTracks _ _
  | @unregister e =>
    have hset := h.setEntry e ({ · with fwdClosed := true }) (fun _ _ => rfl) fun _ => rfl
    exact hset.enter fun _ => rfl
  | @updatePrefix e pfx =>
    have hset := h.setEntry e ({ · with reserved := pfx }) (fun _ hc => hc) fun _ => rfl
    have henter := hset.enter (c := .updating e pfx) fun _ => rfl
    exact ⟨henter.unmade, henter.holders⟩
  | go hc opened => exact h.advance hc opened
  | decline hc hnone => exact h.done hc hnone.1

end

/-! ### One offer at a time -/

/-- The PUBLISHes that are open or about to be opened. -/
def State.offers (s : State) : Nat := s.forwarded.length + s.calls.countP Call.pending

theorem State.openPublishes_le_offers (s : State) : s.openPublishes ≤ s.offers := by
  have hcount : s.calls.countP Call.carries ≤ s.calls.countP Call.pending := by
    apply countP_mono_left
    intro c _ hc
    cases c <;> first | exact hc | rfl
  exact Nat.add_le_add_left hcount _

theorem State.offers_leave (hc : c ∈ s.calls) :
    (s.leave c).offers + c.pending.toNat = s.offers := by
  have hcount := State.countP_leave hc Call.pending
  show s.forwarded.length + _ + _ = s.forwarded.length + _
  omega

@[simp] theorem State.offers_enter (s : State) (c : Call) :
    (s.enter c).offers = s.offers + c.pending.toNat := by
  have hcount := s.countP_enter c Call.pending
  show s.forwarded.length + _ = s.forwarded.length + _ + _
  omega

def Finds (s : State) : Call → Bool
  | .checking _ te _ => !s.hasDownstreamOn te
  | _ => false

theorem offers_advance_le (hc : c ∈ s.calls) (opened : Opened) (hno : Finds s c = false) :
    (advance ns (s.leave c) opened c).offers ≤ s.offers := by
  have hleave := State.offers_leave hc
  have hle : (s.leave c).offers ≤ s.offers := Nat.le.intro hleave
  cases c with
  | checking e te epoch =>
    have hfound : s.hasDownstreamOn te = true := by simpa [Finds] using hno
    have hfound' : (s.leave (.checking e te epoch)).hasDownstreamOn te = true := hfound
    simp only [advance, hfound', if_true]
    exact (State.offers_enter _ _).trans_le hle
  | opening e epoch =>
    cases opened with
    | stream => exact (State.offers_enter _ _).trans_le hleave.le
    | noStreamCredit | failed => exact (State.offers_enter _ _).trans_le hle
  | registering e =>
    simp only [advance]
    split
    · -- The PUBLISH is no longer the call's, and is among the registered ones.
      next te _ =>
      show (s.forwarded.length + 1) + (s.leave (.registering e)).calls.countP Call.pending ≤ _
      rw [Nat.add_right_comm]
      exact hleave.le
    · exact (State.offers_enter _ _).trans_le hleave.le
  | registered e added =>
    cases added with
    | true => exact hle
    | false => exact (State.offers_enter _ _).trans_le hleave.le
  | _ =>
    simp only [advance]
    repeat' split
    all_goals exact hle

/-- An offer that finds no downstream looks **alone**: no PUBLISH is registered with another
    `TrackEntry` of the track, and none is between its look and its registration, or its end
    without one, except under the claim this offer has. -/
def LoneCheck (s : State) : Act → Prop
  | .go (.checking e te _) _ =>
    s.hasDownstreamOn te = false →
      (∀ te' ∈ s.forwarded, te' = te) ∧ ∀ c ∈ s.calls, c.pending = true → c.holds e = true
  | _ => True

instance (s : State) (a : Act) : Decidable (LoneCheck s a) := by
  cases a with
  | go c opened => cases c <;> unfold LoneCheck <;> infer_instance
  | _ => unfold LoneCheck; infer_instance

/-- The only call under a claim is the one that is looking, and it is not past its look. -/
theorem offers_eq_zero_of_loneCheck {te : TrackID} {opened : Opened} (h : Claimed s)
    (hc : .checking e te epoch ∈ s.calls) (hno : s.hasDownstreamOn te = false)
    (hok : LoneCheck s (.go (.checking e te epoch) opened)) : s.offers = 0 := by
  obtain ⟨hforwarded, hpending⟩ := hok hno
  have hnone : s.forwarded = [] := by
    apply eq_nil_iff_forall_not_mem.mpr
    intro te' hte'
    obtain rfl := hforwarded te' hte'
    simp [State.hasDownstreamOn, hte'] at hno
  have hzero : s.calls.countP Call.pending = 0 := by
    have hcount := State.countP_leave hc (Call.holds e)
    have hone : ((Call.checking e te epoch).holds e).toNat = 1 := by simp [Call.holds]
    have hle := Bool.toNat_le (s.entries e).forwarding
    have hrest : (s.leave (.checking e te epoch)).calls.countP (Call.holds e) = 0 := by
      rw [h.holders e] at hcount
      omega
    apply countP_eq_zero.mpr
    intro c hin hp
    have hne : c ≠ .checking e te epoch := by
      intro heq
      rw [heq] at hp
      cases hp
    exact countP_eq_zero.mp hrest c ((mem_erase_of_ne hne).mpr hin)
      (hpending c hin hp)
  rw [State.offers, hnone, hzero, length_nil]

theorem offers_step (h : Claimed s) (hone : s.offers ≤ 1) (hok : LoneCheck s a)
    (hs : step ns s a = some s') : s'.offers ≤ 1 := by
  cases steps_of_step hs with
  | forwards cs hcs hq =>
    refine le_trans (Nat.add_le_add hq.forwarded ?_) hone
    rw [hq.calls]
    exact (countP_forwards hcs fun _ _ => rfl).le
  | subscribeTracks => exact hone
  | unregister | updatePrefix => exact (State.offers_enter _ _).trans_le hone
  | decline hc => exact (Nat.le.intro (State.offers_leave hc)).trans hone
  | @go c hc opened =>
    cases hfinds : Finds s c with
    | false => exact (offers_advance_le hc opened hfinds).trans hone
    | true =>
      cases c with
      | checking e te epoch =>
        have hno : s.hasDownstreamOn te = false := by simpa [Finds] using hfinds
        have hzero := offers_eq_zero_of_loneCheck h hc hno hok
        have hleave := State.offers_leave hc
        have hno' : (s.leave (.checking e te epoch)).hasDownstreamOn te = false := hno
        simp only [advance, hno', Bool.false_eq_true, if_false, State.offers_enter]
        have hpending : (Call.opening e epoch).pending.toNat = 1 := rfl
        omega
      | _ => cases hfinds

/-! ### Prefixes -/

theorem apart_step (h : Apart s.prefixes) (hs : step ns s a = some s') : Apart s'.prefixes := by
  cases steps_of_step hs with
  | forwards _ _ hq => exact hq.prefixes ▸ h
  | subscribeTracks hr => exact h.reserve hr
  | updatePrefix hr => exact h.replace hr
  | unregister | decline => exact h
  | @go c hc opened =>
    cases c with
    | unreserving e => exact h.release _
    | registered e added => cases added <;> exact h
    | opening e epoch => cases opened <;> exact h
    | _ =>
      simp only [advance]
      repeat' split
      all_goals exact h

/-! ## Whole runs -/

theorem one_offer {acts : List Act} (hrun : run (step ns) init acts = some s)
    (hok : Along (step ns) LoneCheck init acts) : Claimed s ∧ s.offers ≤ 1 :=
  run_inv_along (P := fun s => Claimed s ∧ s.offers ≤ 1)
    (fun _ _ _ h ok hs => ⟨h.1.step hs, offers_step h.1 h.2 ok hs⟩)
    ⟨claimed_init, Nat.zero_le 1⟩ hok hrun

/-- **One PUBLISH per track and session**, in every run whose offers all look alone; the session's
    prefixes stay apart meanwhile. -/
theorem one_publish_open {ns : TrackNamespace} {acts : List Act} {s : State}
    (hrun : run (step ns) init acts = some s)
    (hok : Along (step ns) LoneCheck init acts) :
    Apart s.prefixes ∧ s.openPublishes ≤ 1 := by
  have hnil : Apart init.prefixes := List.Pairwise.nil
  have hapart : Apart s.prefixes :=
    run_inv (P := fun s => Apart s.prefixes) (fun _ _ _ h hs => apart_step h hs) hnil hrun
  exact ⟨hapart, s.openPublishes_le_offers.trans (one_offer hrun hok).2⟩

/-- Two offers on one entry: the second finds the claim taken. A third, on another entry that the
    namespace has moved to, finds the first one's downstream. -/
theorem one_publish_open_moved :
    ∃ s : State, s.forwarded = [0] ∧ s.calls = [.releasing 1] ∧ Apart s.prefixes ∧
      s.openPublishes ≤ 1 := by
  refine (computes_two (o := run (step [[1]]) init
      [.subscribeTracks [[1]], .subscribeTracks [[2]], .addUpstream 1, .forward 0 0,
        .go (.start 0 0) .stream, .go (.holding 0 0) .stream, .go (.reading 0 0) .stream,
        .forward 0 0, .go (.start 0 0) .stream, .go (.holding 0 0) .stream,
        .go (.reading 0 0) .stream, .go (.claiming 0 0 1) .stream, .go (.claiming 0 0 1) .stream,
        .go (.checking 0 0 1) .stream, .go (.opening 0 1) .stream, .go (.registering 0) .stream,
        .go (.registered 0 true) .stream, .updatePrefix 0 [[3]], .go (.updating 0 [[3]]) .stream,
        .updatePrefix 1 [[1]], .go (.updating 1 [[1]]) .stream, .forward 1 0,
        .go (.start 1 0) .stream, .go (.holding 1 0) .stream, .go (.reading 1 0) .stream,
        .go (.claiming 1 0 1) .stream, .go (.checking 1 0 1) .stream])
    (by decide +kernel) ?_).imp fun _ => And.right
  exact fun s hs _ _ => one_publish_open hs (by decide +kernel)

/-- An offer on entry 0 has passed the prefix test when updates move the track's namespace from
    entry 0 to entry 1. The offer on entry 1 has its own claim, and has opened its PUBLISH when the
    one on entry 0 is about to look. -/
def moved : List Act :=
  [.subscribeTracks [[1]], .subscribeTracks [[2]], .addUpstream 1, .forward 0 0,
    .go (.start 0 0) .stream, .go (.holding 0 0) .stream, .go (.reading 0 0) .stream,
    .updatePrefix 0 [[3]], .go (.updating 0 [[3]]) .stream, .updatePrefix 1 [[1]],
    .go (.updating 1 [[1]]) .stream, .forward 1 0, .go (.start 1 0) .stream,
    .go (.holding 1 0) .stream, .go (.reading 1 0) .stream, .go (.claiming 1 0 1) .stream,
    .go (.checking 1 0 1) .stream, .go (.opening 1 1) .stream, .go (.claiming 0 0 1) .stream]

/-- Neither offer has registered its downstream when the other looks. -/
theorem two_open_after_prefix_update :
    ∃ acts s, run (step [[1]]) init acts = some s ∧ Apart s.prefixes ∧
      s.openPublishes = 2 := by
  have hrun : (run (step [[1]]) init
      (moved ++ [.go (.checking 0 0 1) .stream, .go (.opening 0 1) .stream])).map
      (fun s => (s.prefixes, s.openPublishes)) = some ([[[3]], [[1]]], 2) := by
    decide +kernel
  obtain ⟨s, hs, heq⟩ := Option.map_eq_some_iff.mp hrun
  obtain ⟨hprefixes, htwo⟩ := Prod.mk.inj heq
  refine ⟨_, s, hs, ?_, htwo⟩
  rw [hprefixes]
  unfold Apart
  decide

/-! ### The condition is exact -/

/-- A call that is at its `OpenPublish` gets a stream. -/
def Act.opens : Act → Bool
  | .go (.opening _ _) .stream => true
  | _ => false

/-- A call that has found no downstream and carries no PUBLISH is yet to open one. -/
theorem exists_opening (h : s.openPublishes < s.offers) :
    ∃ e epoch, .opening e epoch ∈ s.calls := by
  by_contra hnone
  push Not at hnone
  have hcount : s.calls.countP Call.pending = s.calls.countP Call.carries := by
    apply countP_congr
    intro c hc
    cases c with
    | opening e epoch => exact absurd hc (hnone e epoch)
    | _ => exact Iff.rfl
  rw [State.offers, hcount] at h
  exact absurd h (Nat.lt_irrefl _)

theorem step_opening (ns : TrackNamespace) (hc : .opening e epoch ∈ s.calls) :
    ∃ t, step ns s (.go (.opening e epoch) .stream) = some t ∧ t.offers = s.offers ∧
      t.openPublishes = s.openPublishes + 1 := by
  refine ⟨(s.leave (.opening e epoch)).enter (.registering e), if_pos hc, ?_, ?_⟩
  · rw [State.offers_enter]
    exact State.offers_leave hc
  · have hleave := State.countP_leave hc Call.carries
    have henter := (s.leave (.opening e epoch)).countP_enter (.registering e) Call.carries
    show s.forwarded.length + _ = s.forwarded.length + _ + 1
    rw [henter, ← hleave]
    rfl

/-- All that is to be opened can be opened. -/
theorem open_all (ns : TrackNamespace) (n : Nat) (h : s.offers = s.openPublishes + n) :
    ∃ acts s', (∀ b ∈ acts, b.opens = true) ∧ run (step ns) s acts = some s' ∧
      s'.openPublishes = s.offers := by
  induction n generalizing s with
  | zero => exact ⟨[], s, nofun, rfl, h.symm⟩
  | succ n ih =>
    obtain ⟨e, epoch, hc⟩ := exists_opening (s := s) (by omega)
    obtain ⟨t, ht, hoffers, hopen⟩ := step_opening ns hc
    obtain ⟨acts, s', hacts, hrun, hall⟩ := ih (s := t) (by omega)
    refine ⟨.go (.opening e epoch) .stream :: acts, s', ?_, run_cons.mpr ⟨t, ht, hrun⟩,
      hall.trans hoffers⟩
    intro b hb
    rcases mem_cons.mp hb with rfl | hb
    · rfl
    · exact hacts b hb

/-- A look that is not alone is made beside another offer, and adds one. -/
theorem two_offers_of_not_loneCheck (hs : step ns s a = some s') (hnot : ¬ LoneCheck s a) :
    2 ≤ s'.offers := by
  cases a with
  | go c opened =>
    cases c with
    | checking e te epoch =>
      unfold LoneCheck at hnot
      rw [Classical.not_imp] at hnot
      obtain ⟨hno, hnot⟩ := hnot
      obtain ⟨hc, rfl⟩ := guard_iff.mp hs
      have hother : s.offers ≠ 0 := by
        intro hzero
        obtain ⟨hforwarded, hcalls⟩ := Nat.add_eq_zero_iff.mp hzero
        refine hnot ⟨?_, fun c hin hp => absurd hp (countP_eq_zero.mp hcalls c hin)⟩
        rw [length_eq_zero_iff.mp hforwarded]
        exact nofun
      have hno' : (s.leave (.checking e te epoch)).hasDownstreamOn te = false := hno
      have hleave := State.offers_leave hc
      simp only [advance, hno', Bool.false_eq_true, if_false, State.offers_enter]
      simp only [Call.pending, Call.carries, Bool.toNat_true, Bool.toNat_false] at hleave ⊢
      omega
    | _ => exact absurd trivial hnot
  | _ => exact absurd trivial hnot

/-- **The condition is exact.** After looks that were all made alone, the next step is a look that
    is not exactly if the PUBLISHes of the calls that are then at their `OpenPublish`, and nothing
    else, can make two open ones. -/
theorem not_loneCheck_iff_two_open {acts : List Act}
    (hrun : run (step ns) init acts = some s) (hok : Along (step ns) LoneCheck init acts)
    (hs : step ns s a = some s') :
    ¬ LoneCheck s a ↔ ∃ opens s'', (∀ b ∈ opens, b.opens = true) ∧
      run (step ns) s' opens = some s'' ∧ 2 ≤ s''.openPublishes := by
  constructor
  · intro hnot
    obtain ⟨n, hn⟩ := Nat.exists_eq_add_of_le s'.openPublishes_le_offers
    obtain ⟨opens, s'', hopens, hrun', hall⟩ := open_all ns n hn
    exact ⟨opens, s'', hopens, hrun', hall ▸ two_offers_of_not_loneCheck hs hnot⟩
  · intro ⟨opens, s'', hopens, hrun', htwo⟩ hlone
    obtain ⟨hclaimed, hone⟩ := one_offer hrun hok
    -- an `OpenPublish` makes no new offer
    have hkept : Claimed s'' ∧ s''.offers ≤ 1 := by
      refine run_inv_along (P := fun s => Claimed s ∧ s.offers ≤ 1) ?_
        ⟨hclaimed.step hs, offers_step hclaimed hone hlone hs⟩ (along_of_mem hopens s') hrun'
      intro t b t' h hb ht
      have hlone : LoneCheck t b := by
        cases b with
        | go c opened =>
          cases c with
          | opening e epoch => trivial
          | _ => cases hb
        | _ => cases hb
      exact ⟨h.1.step ht, offers_step h.1 h.2 hlone ht⟩
    exact absurd (htwo.trans (s''.openPublishes_le_offers.trans hkept.2)) (by decide)

/-- The second look of `moved`: one more `OpenPublish` and there are two. -/
theorem two_open_after_second_check : ∃ s s' opens s'',
    run (step [[1]]) init moved = some s ∧
    step [[1]] s (.go (.checking 0 0 1) .stream) = some s' ∧
    (∀ b ∈ opens, b.opens = true) ∧ run (step [[1]]) s' opens = some s'' ∧
      2 ≤ s''.openPublishes := by
  have hsome : (run (step [[1]]) init
      (moved ++ [.go (.checking 0 0 1) .stream])).isSome = true := by
    decide +kernel
  have hlook : (run (step [[1]]) init moved).all
      (fun s => ¬ LoneCheck s (.go (.checking 0 0 1) .stream)) = true := by
    decide +kernel
  obtain ⟨s', hs'⟩ := Option.isSome_iff_exists.mp hsome
  obtain ⟨s, hrun, hs⟩ := run_append.mp hs'
  rw [run_singleton] at hs
  rw [hrun, Option.all_some, decide_eq_true_eq] at hlook
  exact ⟨s, s', ((not_loneCheck_iff_two_open hrun (by decide +kernel) hs).mp hlook).imp
    fun opens h => h.imp fun s'' h => ⟨hrun, hs, h⟩⟩

end Forward
end MoqGo.Relay
