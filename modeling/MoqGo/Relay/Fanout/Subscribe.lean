import MoqGo.Relay.Datagram
import MoqGo.Relay.Fanout.Joiner

/-!
# A SUBSCRIBE while the track is fanned out (`handleSubscribe`, `pkg/relay/handler_subscribe.go`)

`handleSubscribe` makes the subscription, established from the start, and then takes three steps
that matter to what it is sent:

* `AddDownstreamSnapshotLargest` registers it and snapshots the Largest Object, in one critical
  section of the registry;
* `SetLargestAtSubscribe` stores the snapshot, which the Location Filter is evaluated against,
  in a critical section of the subscription;
* `WriteSubscribeOK` reports it to the subscriber.

`Subscribe` is one such request beside the whole fan-out of the track (`World`), any number of
datagrams in `handleDatagram`, and the setters of the subscription. Where one of them asks
`ForwardDecision`, the answer is the record's, and it is kept in `decisions`.

A Next Object filter should let nothing through at or below the Largest Object that SUBSCRIBE_OK
reports. Between the first and the second step **the filter has no anchor and passes
everything**, and an Object of an older Group may well arrive then; and where the Largest Object
has the last Object ID of its Group, the filter starts at that Object and not past it. These are
the only exceptions: `forwardDecision_past_reported_iff`.
-/

namespace MoqGo.Relay

open Message Option

/-- The Object a contributor asks the subscriptions about. -/
def Contributor.attrs (ct : Contributor) (obj : SubgroupObject) : ObjectAttrs where
  subgroupID := ct.hdr.subgroupID
  objectID := ct.objectID
  priority := ct.hdr.publisherPriority
  props := obj.properties

/-- Where `handleSubscribe` stands. -/
inductive Stage
  | accepted
  /-- `AddDownstreamSnapshotLargest` returned the snapshot. -/
  | registered (largest : Location) (hasLargest : Bool)
  /-- `SetLargestAtSubscribe` returned. -/
  | anchored
  /-- SUBSCRIBE_OK was written, with this LARGEST_OBJECT. -/
  | answered (reported : Option Location)
deriving DecidableEq, Repr

/-- An answer of `ForwardDecision`, with the Location Filter that was in force. -/
structure Decision where
  filter : Option LocationFilter
  loc : Location
  verdict : ForwardVerdict
deriving DecidableEq, Repr

/-- The `LOCATION_FILTER` is Next Object. -/
def isNextObject (f : Option LocationFilter) : Bool := f.any fun f => f.type == .nextObject

/-- A Next Object filter let an Object through at or below `largest`. -/
def Decision.GoesBack (largest : Location) (d : Decision) : Prop :=
  isNextObject d.filter = true ∧ largest.less d.loc = false ∧ d.verdict = .forward

/-- The setters of the subscription that `ForwardDecision` depends on. -/
inductive Setting
  | filter (f : LocationFilter)
  | forwardState (n : Nat)
  | rangeFilters (f : Option RangeFilterSet)
  | terminated

def DownstreamSub.set (d : DownstreamSub) : Setting → DownstreamSub
  | .filter f => { d with filter := some f }
  | .forwardState n => { d with forwardState := n }
  | .rangeFilters f => { d with rangeFilters := f }
  | .terminated => { d with state := .terminated }

/-- One SUBSCRIBE beside the fan-out of its track. -/
structure Subscribe where
  world : World
  id : SubID
  sub : DownstreamSub := {}
  stage : Stage := .accepted
  datagrams : Nat → Option (ObjectDatagram × DatagramPhase) := fun _ => none
  decisions : List Decision := []

namespace Subscribe

inductive Act
  /-- A step of the fan-out, or a subscriber's leaving. -/
  | fanout (e : World.Event)
  /-- `UpdateLargest`, for the LARGEST_OBJECT of an upstream's message. -/
  | updateLargest (loc : Location)
  | receive (k : Nat) (d : ObjectDatagram)
  /-- `handleDatagram` goes on with datagram `k`. -/
  | datagram (k : Nat) (now : Nat)
  | addDownstreamSnapshotLargest
  | setLargestAtSubscribe
  | writeSubscribeOK
  | set (m : Setting)

/-- What a step asks `ForwardDecision` of the subscription: the Group and the Object. -/
def question (s : Subscribe) : Act → Option (UInt64 × ObjectAttrs)
  | .fanout (.act (.forward c _ _)) =>
    match s.world.contribs c with
    | some ct =>
      match ct.phase with
      | .claimed claim obj heard =>
        if ((s.world.sets ct.set).doneReading ct.objectID).asks claim ct.objectID heard.count s.id
        then some (ct.hdr.groupID, ct.attrs obj)
        else none
      | _ => none
    | none => none
  | .datagram k _ =>
    match s.datagrams k with
    | some (d, .offering (x :: _)) => if x = s.id then some (d.groupID, d.attrs) else none
    | _ => none
  | _ => none

/-- The answer. -/
def answer (s : Subscribe) (q : UInt64 × ObjectAttrs) : Decision where
  filter := s.sub.filter
  loc := ⟨q.1, q.2.objectID⟩
  verdict := s.sub.forwardDecision q.1 q.2

/-- What a step of the fan-out takes from the subscription is the subscription's. -/
def agrees (s : Subscribe) : World.Event → Bool
  | .act (.register x) => x != s.id
  | .act (.openInitial _ established) | .act (.header _ _ _ established) =>
    established s.id == (s.sub.state == .established)
  | .act (.forward c now verdict) =>
    (s.question (.fanout (.act (.forward c now verdict)))).all fun q =>
      verdict s.id == s.sub.forwardDecision q.1 q.2
  | .act (.leave c outOfRange) =>
    (s.world.contribs c).all fun ct =>
      outOfRange s.id == groupOutOfRange ct.hdr.groupID s.sub.filter
  | _ => true

/-- One step, but for the record of its decision. -/
def move (s : Subscribe) : Act → Option Subscribe
  | .fanout e =>
    if s.agrees e then (s.world.next e).map fun W => { s with world := W } else none
  | .updateLargest loc =>
    some { s with world := { s.world with entry := s.world.entry.updateLargest loc } }
  | .receive k d =>
    match s.datagrams k with
    | none => some { s with datagrams := Function.update s.datagrams k (some (d, .received)) }
    | some _ => none
  | .datagram k now =>
    match s.datagrams k with
    | some (d, p) =>
      let (entry, p) := s.world.entry.handleDatagram now d p
      some { s with
        world := { s.world with entry := entry }
        datagrams := Function.update s.datagrams k (p.map (d, ·)) }
    | none => none
  | .addDownstreamSnapshotLargest =>
    match s.stage with
    | .accepted =>
      (s.world.step (.register s.id)).map fun W =>
        { s with
          world := W
          stage := .registered s.world.entry.largestObject s.world.entry.hasLargestObject }
    | _ => none
  | .setLargestAtSubscribe =>
    match s.stage with
    | .registered largest hasLargest =>
      some { s with sub := s.sub.setLargestAtSubscribe largest hasLargest, stage := .anchored }
    | _ => none
  | .writeSubscribeOK =>
    match s.stage with
    | .anchored =>
      -- a subscription terminated before gets no SUBSCRIBE_OK
      if s.sub.state = .terminated then none
      else
        some { s with
          sub := { s.sub with okSent := true }
          stage := .answered
            (if s.sub.hasLargestAtSubscribe then some s.sub.largestAtSubscribe else none) }
    | _ => none
  | .set m => some { s with sub := s.sub.set m }

/-- One step. -/
def step (s : Subscribe) (a : Act) : Option Subscribe :=
  (s.move a).map fun s' =>
    { s' with decisions := s.decisions ++ (s.question a).toList.map s.answer }

/-- The start: a new track, and a subscription as `NewDownstreamSub` makes it. -/
def init (cfg : WriterSet.Config) (cache : ObjectCache) (id : SubID) : Subscribe :=
  { world := .init cfg cache, id := id }

/-! ## The snapshot and the decisions -/

/-- The Largest Object SUBSCRIBE_OK reports or will report. -/
def snapshot (s : Subscribe) : Option Location :=
  match s.stage with
  | .accepted => none
  | .registered largest hasLargest => if hasLargest then some largest else none
  | .anchored | .answered _ =>
    if s.sub.hasLargestAtSubscribe then some s.sub.largestAtSubscribe else none

/-- The Object is past the snapshot, where the filter does not see to that: while the snapshot is
    not stored the Object has to be, and then it must not be the last one of its Group. -/
def past (s : Subscribe) (loc : Location) : Bool :=
  match s.stage with
  | .accepted => true
  | .registered largest hasLargest => !hasLargest || largest.less loc
  | .anchored | .answered _ =>
    !(s.sub.hasLargestAtSubscribe && s.sub.largestAtSubscribe == loc && loc.object == maxUint64)

/-- What is asked about under a Next Object filter, and would be taken but for that filter, is
    past the snapshot. -/
def AsksPast (s : Subscribe) (a : Act) : Prop :=
  ∀ q ∈ s.question a, isNextObject s.sub.filter = true → s.sub.takes q.2 = true →
    s.past ⟨q.1, q.2.objectID⟩ = true

def NeverBack (s : Subscribe) : Prop :=
  ∀ largest, s.snapshot = some largest → ∀ d ∈ s.decisions, ¬ d.GoesBack largest

/-- What holds of the request at each stage. -/
structure Sound (s : Subscribe) : Prop where
  /-- Before the registration nobody knows of the subscription. -/
  unknown : s.stage = .accepted → World.Noted (· ≠ s.id) s.world ∧ s.decisions = [] ∧
    ∀ k d subs, s.datagrams k = some (d, .offering subs) → s.id ∉ subs
  /-- Before the snapshot is stored the filter has no anchor. -/
  unanchored : s.stage = .accepted ∨ (∃ largest known, s.stage = .registered largest known) →
    s.sub.hasLargestAtSubscribe = false
  reported : ∀ reported, s.stage = .answered reported → reported = s.snapshot

/-! ## One step -/

section

variable {s s' : Subscribe} {a : Act}

theorem past_of_snapshot_none (h : s.snapshot = none) (loc : Location) : s.past loc = true := by
  unfold snapshot at h
  unfold past
  split <;> simp_all

/-- **When a decision goes back**: the Object is not past the snapshot, and passes everything but
    the Location Filter. -/
theorem answer_goesBack (hs : Sound s) {largest : Location} (hsnap : s.snapshot = some largest)
    (q : UInt64 × ObjectAttrs) :
    (s.answer q).GoesBack largest ↔ isNextObject s.sub.filter = true ∧
      s.sub.takes q.2 = true ∧ s.past ⟨q.1, q.2.objectID⟩ = false := by
  have hirrefl : largest.less largest = false := Location.not_less_iff.mpr (Nat.le_refl _)
  unfold Decision.GoesBack answer
  simp only [DownstreamSub.forwardDecision_eq_forward]
  refine and_congr_right fun hnext => ?_
  obtain ⟨f, hf, htype⟩ : ∃ f, s.sub.filter = some f ∧ f.type = .nextObject := by
    simpa [isNextObject, any_eq_true] using hnext
  have hpass := LocationFilter.matchesLocation_nextObject htype ⟨q.1, q.2.objectID⟩
    s.sub.largestAtSubscribe s.sub.hasLargestAtSubscribe
  simp only [DownstreamSub.passesLocation, hf, hpass]
  generalize (⟨q.1, q.2.objectID⟩ : Location) = loc
  cases hstage : s.stage with
  | accepted => simp [snapshot, hstage] at hsnap
  | registered l known =>
    have hnone := hs.unanchored (.inr ⟨l, known, hstage⟩)
    obtain ⟨hknown, rfl⟩ : known = true ∧ l = largest := by simpa [snapshot, hstage] using hsnap
    simp [past, hstage, hnone, hknown]
    tauto
  | anchored | answered _ =>
    obtain ⟨hhas, rfl⟩ : s.sub.hasLargestAtSubscribe = true ∧
        s.sub.largestAtSubscribe = largest := by
      simpa [snapshot, hstage] using hsnap
    simp only [past, hstage, hhas, Bool.true_and, Bool.not_eq_false', Bool.and_eq_true,
      beq_iff_eq, Bool.true_eq_false, false_or]
    constructor
    · rintro ⟨hless, htakes, hmore | ⟨rfl, hmax⟩⟩
      · rw [hless] at hmore
        cases hmore
      · exact ⟨htakes, rfl, hmax⟩
    · rintro ⟨htakes, rfl, hmax⟩
      exact ⟨hirrefl, htakes, .inr ⟨rfl, hmax⟩⟩

theorem question_unknown (hs : Sound s) (hstage : s.stage = .accepted) (a : Act) :
    s.question a = none := by
  obtain ⟨hnoted, -, hdatagrams⟩ := hs.unknown hstage
  have hwriters : ∀ i, (s.world.sets i).writers s.id = none := by
    intro i
    by_contra hw
    exact hnoted.known i s.id (by simpa [WriterSet.seqs] using hw) rfl
  unfold question
  split
  · split
    · split
      · simp [WriterSet.asks, WriterSet.doneReading, hwriters]
      · rfl
    · rfl
  · split
    · next d x subs hd =>
      have hx := hdatagrams _ d _ hd
      have hne : x ≠ s.id := by
        intro hid
        exact hx (hid ▸ List.mem_cons_self)
      rw [if_neg hne]
    · rfl
  · rfl

theorem move_snapshot (hstage : s.stage ≠ .accepted) (h : s.move a = some s') :
    s'.snapshot = s.snapshot ∧ s'.stage ≠ .accepted := by
  cases a with
  | fanout e =>
    simp only [move] at h
    split_ifs at h
    obtain ⟨W, -, rfl⟩ := map_eq_some_iff.mp h
    exact ⟨rfl, hstage⟩
  | updateLargest loc =>
    cases h
    exact ⟨rfl, hstage⟩
  | receive k d =>
    simp only [move] at h
    split at h
    · cases h
      exact ⟨rfl, hstage⟩
    · cases h
  | datagram k now =>
    simp only [move] at h
    split at h
    · cases h
      exact ⟨rfl, hstage⟩
    · cases h
  | addDownstreamSnapshotLargest =>
    simp only [move] at h
    cases h
  | setLargestAtSubscribe =>
    simp only [move] at h
    split at h
    · next largest known hreg =>
      cases h
      refine ⟨?_, nofun⟩
      simp only [snapshot, hreg]
      rfl
    · cases h
  | writeSubscribeOK =>
    simp only [move] at h
    split at h
    · next hanch =>
      split at h
      · cases h
      · cases h
        refine ⟨?_, nofun⟩
        simp only [snapshot, hanch]
    · cases h
  | set m =>
    cases h
    refine ⟨?_, hstage⟩
    cases m <;> rfl

theorem Sound.frame (hs : Sound s) (hid : s'.id = s.id) (hstage : s'.stage = s.stage)
    (hlargest : s'.sub.largestAtSubscribe = s.sub.largestAtSubscribe)
    (hhas : s'.sub.hasLargestAtSubscribe = s.sub.hasLargestAtSubscribe)
    (hunknown : s.stage = .accepted → World.Noted (· ≠ s.id) s'.world ∧ s'.decisions = [] ∧
      ∀ k d subs, s'.datagrams k = some (d, .offering subs) → s.id ∉ subs) : Sound s' := by
  refine ⟨?_, ?_, ?_⟩
  · rw [hid, hstage]
    exact hunknown
  · rw [hstage, hhas]
    exact hs.unanchored
  · have hsnap : s'.snapshot = s.snapshot := by
      unfold snapshot
      rw [hstage, hlargest, hhas]
    rw [hstage, hsnap]
    exact hs.reported

theorem noted_entry {K : SubID → Prop} {W : World} {e : TrackEntry SetID} (hi : World.Noted K W)
    (hsub : e.subgroups = W.entry.subgroups) (hdown : e.downstream = W.entry.downstream)
    (hgen : e.downstreamGen = W.entry.downstreamGen) :
    World.Noted K { W with entry := e } := by
  refine hi.still (hi.attached.frame (fun _ => rfl) hsub rfl) ?_
  refine ⟨fun _ => .refl _, fun _ _ hc => .same hc, ?_, hdown, hgen, rfl, rfl, rfl⟩
  intro k i refs hk
  exact ⟨refs, hsub ▸ hk⟩

theorem Sound.step (hs : Sound s) (h : s.step a = some s') : Sound s' := by
  obtain ⟨t, hmove, rfl⟩ := map_eq_some_iff.mp h
  have hnone : s.stage = .accepted → s.decisions ++ (s.question a).toList.map s.answer = [] := by
    intro hstage
    simp [(hs.unknown hstage).2.1, question_unknown hs hstage a]
  cases a with
  | fanout e =>
    simp only [move] at hmove
    split_ifs at hmove with hagrees
    obtain ⟨W, hnext, rfl⟩ := map_eq_some_iff.mp hmove
    refine hs.frame rfl rfl rfl rfl fun hstage => ?_
    obtain ⟨hnoted, -, hdatagrams⟩ := hs.unknown hstage
    refine ⟨hnoted.next ?_ hnext, hnone hstage, hdatagrams⟩
    intro x hx
    subst hx
    simpa [agrees] using hagrees
  | updateLargest loc =>
    cases hmove
    refine hs.frame rfl rfl rfl rfl fun hstage => ?_
    obtain ⟨hnoted, -, hdatagrams⟩ := hs.unknown hstage
    obtain ⟨largest, known, heq⟩ := s.world.entry.updateLargest_eq loc
    refine ⟨?_, hnone hstage, hdatagrams⟩
    rw [heq]
    exact noted_entry hnoted rfl rfl rfl
  | receive k d =>
    simp only [move] at hmove
    split at hmove
    · cases hmove
      refine hs.frame rfl rfl rfl rfl fun hstage => ?_
      obtain ⟨hnoted, -, hdatagrams⟩ := hs.unknown hstage
      refine ⟨hnoted, hnone hstage, ?_⟩
      intro k' d' subs hk'
      by_cases hk : k' = k
      · subst hk
        simp at hk'
      · exact hdatagrams k' d' subs (by simpa [Function.update_of_ne hk] using hk')
    · cases hmove
  | datagram k now =>
    simp only [move] at hmove
    split at hmove
    · next d p hk =>
      cases hmove
      refine hs.frame rfl rfl rfl rfl fun hstage => ?_
      obtain ⟨hnoted, -, hdatagrams⟩ := hs.unknown hstage
      obtain ⟨call, cache, largest, known, heq⟩ := s.world.entry.handleDatagram_eq now d p
      refine ⟨?_, hnone hstage, ?_⟩
      · rw [heq]
        exact noted_entry hnoted rfl rfl rfl
      · intro k' d' subs hk'
        by_cases hkk : k' = k
        · subst hkk
          simp only [Function.update_self, map_eq_some_iff, Prod.mk.injEq] at hk'
          obtain ⟨p', hp', -, rfl⟩ := hk'
          rcases TrackEntry.handleDatagram_offering hp' with hdown | ⟨x, rfl⟩
          · intro hid
            exact hnoted.down s.id (hdown ▸ hid) rfl
          · intro hid
            exact hdatagrams k' d _ hk (List.mem_cons_of_mem x hid)
        · exact hdatagrams k' d' subs (by simpa [Function.update_of_ne hkk] using hk')
    · cases hmove
  | addDownstreamSnapshotLargest =>
    simp only [move] at hmove
    split at hmove
    · next hstage =>
      obtain ⟨W, -, rfl⟩ := map_eq_some_iff.mp hmove
      exact ⟨nofun, fun _ => hs.unanchored (.inl hstage), nofun⟩
    · cases hmove
  | setLargestAtSubscribe =>
    simp only [move] at hmove
    split at hmove
    · cases hmove
      exact ⟨nofun, by simp, nofun⟩
    · cases hmove
  | writeSubscribeOK =>
    simp only [move] at hmove
    split at hmove
    · split at hmove
      · cases hmove
      · cases hmove
        refine ⟨nofun, by simp, ?_⟩
        intro reported h
        exact (Stage.answered.inj h).symm
    · cases hmove
  | set m =>
    cases hmove
    have hlargest : (s.sub.set m).largestAtSubscribe = s.sub.largestAtSubscribe := by
      cases m <;> rfl
    have hhas : (s.sub.set m).hasLargestAtSubscribe = s.sub.hasLargestAtSubscribe := by
      cases m <;> rfl
    refine hs.frame rfl rfl hlargest hhas fun hstage => ?_
    obtain ⟨hnoted, -, hdatagrams⟩ := hs.unknown hstage
    exact ⟨hnoted, hnone hstage, hdatagrams⟩

theorem step_neverBack (hs : Sound s) (h : s.step a = some s') :
    NeverBack s' ↔ NeverBack s ∧ AsksPast s a := by
  obtain ⟨t, hmove, rfl⟩ := map_eq_some_iff.mp h
  by_cases hstage : s.stage = .accepted
  · have hnone := question_unknown hs hstage a
    have hempty := (hs.unknown hstage).2.1
    simp [NeverBack, AsksPast, hnone, hempty]
  · have hsnap : (⟨t.world, t.id, t.sub, t.stage, t.datagrams,
        s.decisions ++ (s.question a).toList.map s.answer⟩ : Subscribe).snapshot = s.snapshot :=
      (move_snapshot hstage hmove).1
    unfold NeverBack
    rw [hsnap]
    cases hlargest : s.snapshot with
    | none =>
      have hpast : AsksPast s a := fun q _ _ _ => past_of_snapshot_none hlargest _
      simp [hpast]
    | some largest =>
      simp only [some.injEq, forall_eq', List.mem_append, or_imp, forall_and]
      refine and_congr_right fun _ => ?_
      cases hq : s.question a with
      | none => simp [AsksPast, hq]
      | some q =>
        simp [AsksPast, hq, answer_goesBack hs hlargest]

end

/-! ## Whole runs -/

theorem Sound.init (cfg : WriterSet.Config) (cache : ObjectCache) (id : SubID) :
    Sound (init cfg cache id) := by
  refine ⟨?_, fun _ => rfl, nofun⟩
  intro _
  exact ⟨.init cfg cache, rfl, nofun⟩

/-- **When a Next Object subscription never goes back.** In every interleaving after which
    SUBSCRIBE_OK has reported a Largest Object: no Object at or below it got Forward under a Next
    Object filter, exactly if each question was about an Object past the snapshot where the
    filter does not see to that. -/
theorem forwardDecision_past_reported_iff {cfg : WriterSet.Config} {cache : ObjectCache}
    {id : SubID} {acts : List Act} {s : Subscribe} {reported : Location}
    (hrun : Lib.run step (init cfg cache id) acts = some s)
    (hok : s.stage = .answered (some reported)) :
    (∀ d ∈ s.decisions, isNextObject d.filter = true → reported.less d.loc = false →
      d.verdict ≠ .forward) ↔ Lib.Along step AsksPast (init cfg cache id) acts := by
  have hsound : Sound s :=
    Lib.run_inv (fun _ _ _ hi h => Sound.step hi h) (Sound.init cfg cache id) hrun
  have hsnap : s.snapshot = some reported := (hsound.reported _ hok).symm
  have hexact := Lib.run_iff_along (fun _ _ _ hi h => Sound.step hi h)
    (fun _ _ _ hi h => step_neverBack hi h) (Sound.init cfg cache id) hrun
  have hstart : NeverBack (Subscribe.init cfg cache id) := nofun
  have hend : NeverBack s ↔ ∀ d ∈ s.decisions, isNextObject d.filter = true →
      reported.less d.loc = false → d.verdict ≠ .forward := by
    simp only [NeverBack, hsnap, some.injEq, forall_eq', Decision.GoesBack, not_and]
  rw [← hend, hexact]
  exact and_iff_right hstart

instance (s : Subscribe) (a : Act) : Decidable (AsksPast s a) :=
  match h : s.question a with
  | none => .isTrue (by simp [AsksPast, h])
  | some q => decidable_of_iff (isNextObject s.sub.filter = true → s.sub.takes q.2 = true →
      s.past ⟨q.1, q.2.objectID⟩ = true) (by simp [AsksPast, h])

/-- Object 5 of Group 1 is forwarded; a stream of Group 0 is open; and a SUBSCRIBE with a Next
    Object filter is registered. -/
def nextObjectJoins : List Act :=
  (World.opening 0 { groupID := 1 } ++ World.reading 0 5 ++ World.opening 1 {}).map
    (fun a => .fanout (.act a)) ++
  [.set (.filter { type := .nextObject }), .addDownstreamSnapshotLargest]

/-- Contributor `c` reads Object `id`, which the subscription answers with `v`. -/
def offered (c : ContribID) (id : UInt64) (v : ForwardVerdict) : List Act :=
  [.fanout (.act (.header c id {} fun _ => true)), .fanout (.act (.claim c 0)),
    .fanout (.act (.forward c 0 fun _ => v))]

/-- An Object of Group 0, a datagram of Group 1 and Object 6 of Group 1 come after
    SUBSCRIBE_OK. -/
def nextObjectAnchored : List Act :=
  nextObjectJoins ++ [.setLargestAtSubscribe, .writeSubscribeOK] ++ offered 1 3 .skipBeforeStart ++
    .receive 0 { groupID := 1, objectID := 4 } :: List.replicate 5 (.datagram 0 0) ++
    offered 0 6 .forward

theorem forwardDecision_past_reported_anchored :
    ∃ s, Lib.run step (init ⟨8, 0⟩ (.new 4 0) 0) nextObjectAnchored = some s ∧
      s.stage = .answered (some ⟨1, 5⟩) ∧
      s.decisions.map (fun d => (d.loc, d.verdict)) = [(⟨0, 3⟩, .skipBeforeStart),
        (⟨1, 4⟩, .skipBeforeStart), (⟨1, 6⟩, .forward)] ∧
      ∀ d ∈ s.decisions, isNextObject d.filter = true →
        (⟨1, 5⟩ : Location).less d.loc = false → d.verdict ≠ .forward := by
  refine Lib.computes_two (by decide +kernel) fun s hs hstage _ => ?_
  exact (forwardDecision_past_reported_iff hs hstage).mpr (by decide +kernel)

/-- **An older Object slips through.** Object 3 of Group 0 is read and forwarded between the
    registration and the storing of the snapshot: it gets Forward, and SUBSCRIBE_OK then reports
    Object 5 of Group 1. -/
theorem older_object_before_anchor :
    ∃ s, Lib.run step (init ⟨8, 0⟩ (.new 4 0) 0)
        (nextObjectJoins ++ offered 1 3 .forward ++ [.setLargestAtSubscribe, .writeSubscribeOK]) =
        some s ∧
      s.stage = .answered (some ⟨1, 5⟩) ∧
      s.decisions = [⟨some { type := .nextObject }, ⟨0, 3⟩, .forward⟩] :=
  Lib.computes (by decide +kernel)

end Subscribe
end MoqGo.Relay
