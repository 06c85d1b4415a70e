import MoqGo.Relay.Fanout.Continuity
import MoqGo.Relay.Fanout.Forwarded
import MoqGo.Relay.Ledger.Lowest

/-!
# Which Object starts a Subgroup (`claimFirst`, `runFanout`, `pkg/relay/handler_fanout.go`)

An outbound stream opened without ReplayingSubgroup claims that its first Object starts the
Subgroup (§11.3.1). A contributor's claim to that is passed on only for an Object lower than all
that were forwarded. The set knows what went through it (`lowest`); what went through an **earlier**
set of the Subgroup it has to be told by its creator, who asks the ledger (`LowestForwarded`) after
`AcquireSubgroup` has published the set and before it takes the set's lock.

A second contributor is not held up by that. It can join, read and forward while the set knows
nothing, and its first Object is then marked as the Subgroup's first although an earlier set
forwarded a lower one (`first_above_forwarded`). `first_object_lowest_iff` says that this is the
only way: the marks of a run are right exactly if no such step is `Premature`.

The other half of the promise holds in every run: a stream opened without ReplayingSubgroup starts
with an Object that was so marked, because the one stream that could start with another, opened for
an Object that expired before it was written, is reset by `dropExpired` (`Writer.Begins.begun`).
-/

namespace MoqGo.Relay

open Message List Option
open Function (update update_apply update_of_ne update_self)

/-! ## The lowest Object of a set -/

namespace WriterSet

/-- What the set knows of the start of its Subgroup. -/
def start (s : WriterSet) : SubgroupHeader × Bool × UInt64 := (s.hdr, s.forwarded, s.lowest)

theorem leave_start (s : WriterSet) (reset : Bool) (code : StreamResetCode) (covers : Bool)
    (coverFrom : UInt64) : (s.leave reset code covers coverFrom).start = s.start := by
  unfold leave
  split_ifs <;> rfl

theorem forward_start (s : WriterSet) (verdict : SubID → ForwardVerdict) (pos : InboundPos)
    (objectID : UInt64) (obj : SubgroupObject) (claimed : Bool) (heard : Nat) :
    (s.forward verdict pos objectID obj claimed heard).start = (s.lower objectID).start := by
  have hrun : ∀ s : WriterSet, (s.extendRun objectID).start = s.start := by
    intro s
    unfold extendRun
    split_ifs <;> rfl
  exact hrun (s.lower objectID)

variable {s : WriterSet}

theorem lower_lowest (s : WriterSet) (id : UInt64) :
    (s.lower id).forwarded = true ∧ (s.lower id).lowest ≤ id ∧
      (s.forwarded = true → (s.lower id).lowest ≤ s.lowest) ∧
      ((s.lower id).lowest = id ∨ s.forwarded = true ∧ (s.lower id).lowest = s.lowest) := by
  unfold lower
  split_ifs with hlow <;> grind

theorem lower_start {s' : WriterSet} (h : s.start = s'.start) (id : UInt64) :
    (s.lower id).start = (s'.lower id).start := by
  have heq := h
  simp only [start, Prod.mk.injEq] at heq
  unfold lower
  rw [heq.2.1, heq.2.2]
  split
  · simp only [start, heq.1]
  · exact h

theorem lower_hdr (s : WriterSet) (id : UInt64) : (s.lower id).hdr = s.hdr := by
  unfold lower
  split <;> rfl

/-- `claimFirst` passes a claim on for an Object below all the set knows of. -/
theorem claimFirst_iff {id : UInt64} {claimed : Bool} : (s.claimFirst id claimed).2 = true ↔
      claimed = true ∧ (s.forwarded = true → id < s.lowest) := by
  simp only [claimFirst, Bool.and_eq_true, Bool.or_eq_true, Bool.not_eq_true', decide_eq_true_eq]
  cases s.forwarded <;> simp

end WriterSet

/-! ## The fan-out with its marks -/

/-- An Object that reached `forward`: its set, its Subgroup, and whether it was marked as the
    Subgroup's first. -/
structure FirstMark where
  set : SetID
  key : SubgroupKey
  id : UInt64
  first : Bool
deriving DecidableEq, Repr

/-- What an action hands to `forward`. -/
def World.mark (W : World) : Action → Option FirstMark
  | .forward c _ verdict =>
    match W.contribs c with
    | some ct =>
      match ct.phase with
      | .claimed claim _ _ =>
        let s := (W.sets ct.set).doneReading ct.objectID
        if (s.admitAgedOut claim verdict ct.objectID).2 then
          some ⟨ct.set, ct.key, ct.objectID, (s.claimFirst ct.objectID ct.isTrueFirst).2⟩
        else none
      | _ => none
    | none => none
  | _ => none

/-- A track being fanned out, with what was forwarded, newest first, and the sets their creators
    have seeded. -/
structure Firsts where
  world : World
  log : List FirstMark := []
  seeded : List SetID := []

namespace Firsts

open World

def seeds (t : Firsts) : Action → List SetID
  | .openInitial c _ => ((t.world.contribs c).map (·.set)).toList ++ t.seeded
  | _ => t.seeded

def step (t : Firsts) (a : Action) : Option Firsts :=
  (t.world.step a).map fun W => ⟨W, (t.world.mark a).toList ++ t.log, t.seeds a⟩

def init (cfg : WriterSet.Config) (cache : ObjectCache) : Firsts := ⟨World.init cfg cache, [], []⟩

/-- The contributor whose Object an action offers to its set. -/
def offering (t : Firsts) : Action → Option Contributor
  | .forward c _ _ => (t.world.contribs c).filter fun ct =>
    match ct.phase with
    | .claimed _ _ _ => true
    | _ => false
  | _ => none

/-- **The step that goes wrong**: the Object of a contributor that claims to start the Subgroup
    is forwarded through a set that is not seeded, lower than all that went through that set, but
    not lower than all that went through earlier ones. -/
def Premature (t : Firsts) (key : SubgroupKey) (a : Action) : Prop :=
  ∃ ct ∈ t.offering a, ct.key = key ∧ ct.isTrueFirst = true ∧ ct.set ∉ t.seeded ∧
    (∃ m ∈ t.log, m.key = key ∧ m.id < ct.objectID) ∧
    ∀ m ∈ t.log, m.set = ct.set → ct.objectID < m.id

instance (t : Firsts) (key : SubgroupKey) (a : Action) : Decidable (t.Premature key a) :=
  inferInstanceAs (Decidable (∃ _ ∈ _, _))

/-- An Object is marked as first only if no lower Object of the Subgroup was forwarded before. -/
def Right (key : SubgroupKey) (log : List FirstMark) : Prop :=
  log.Pairwise fun later earlier =>
    later.key = key → later.first = true → earlier.key = key → ¬ earlier.id < later.id

end Firsts

/-! ## Who seeds -/

namespace World

variable {W W' : World} {a : Action} {c : ContribID} {ct : Contributor}

/-- An action puts one contributor, which does not hold an answer of `LowestForwarded`. -/
def PutsOther (W W' : World) : Prop :=
  W'.contribs = W.contribs ∨
    ∃ c ct, W'.contribs = (W.putContrib c ct).contribs ∧ ct.phase.seeds = false

theorem Step.putsOther (h : Step W a W') (ha : ∀ c, a ≠ .lowestForwarded c) : PutsOther W W' := by
  cases h with
  | register | others | dequeue | finish => exact .inl rfl
  | @moves _ c ct ct' _ _ _ _ _ _ _ _ hseeds =>
    exact .inr ⟨c, ct', rfl, Bool.eq_false_iff.mpr fun hs => ha c (hseeds hs)⟩
  | @done c ct leaves => exact .inr ⟨c, _, rfl, by cases leaves <;> rfl⟩
  | joins | makes | openInitial | header | claimAgedOut | claimFresh | drops | forwards | leave =>
    exact .inr ⟨_, _, rfl, rfl⟩

theorem PutsOther.seeding (h : PutsOther W W') {ct' : Contributor} (hc : W'.contribs c = some ct')
    (hp : ct'.phase.seeds = true) : W.contribs c = some ct' := by
  rcases h with heq | ⟨c₀, ct₀, heq, hother⟩
  · rw [← heq]
    exact hc
  · rw [heq] at hc
    refine (putContrib_cases (P := fun ct => ct.phase.seeds = false) hother c ct' hc).resolve_right
      fun hno => ?_
    rw [hp] at hno
    cases hno

end World

/-! ## What the ledger and the sets know -/

/-- The ledger has moved on by a call, or not at all. -/
structure Ledger.Later (l l' : Ledger) : Prop where
  wf : l'.WF
  evolves : l.Evolves l'
  lowest : l.KeepsLowest l'

theorem Ledger.Later.refl {l : Ledger} (hwf : l.WF) : l.Later l := ⟨hwf, .refl l, .refl l⟩

theorem TrackEntry.later_after {S : Type} {e : TrackEntry S} (hwf : e.ledger.WF)
    (call : Option Ledger.Call) (cache : ObjectCache) :
    e.ledger.Later (e.after call cache).ledger := by
  cases call with
  | none => exact .refl hwf
  | some call =>
    obtain ⟨hwf', hev⟩ := Ledger.call_evolves hwf call
    exact ⟨hwf', hev, Ledger.call_keepsLowest hwf call⟩

/-- `LowestForwarded` reports an Object no higher, or the Group has aged out. -/
def Ledger.Knows (l : Ledger) (key : SubgroupKey) (id : UInt64) : Prop :=
  l.agesOut key.group = true ∨ l.Reports key.group key.subgroup id

theorem Ledger.Knows.later {l l' : Ledger} {key : SubgroupKey} {id : UInt64} (h : l.Knows key id)
    (hl : l.Later l') : l'.Knows key id := by
  rcases h with hage | hrep
  · exact .inl (hl.evolves.aged _ hage)
  · exact hrep.keeps hl.lowest

namespace Firsts

open World

/-- What makes the marks right. Where a Group has aged out nothing is promised. -/
structure Inv (t : Firsts) : Prop where
  attached : Attached t.world
  wf : t.world.entry.ledger.WF
  named : ∀ k i refs, t.world.entry.subgroups.lookup k = some ⟨i, refs⟩ →
    headerKey (t.world.sets i).hdr = k
  logged : ∀ m ∈ t.log, m.set < t.world.nextSet ∧ m.key = headerKey (t.world.sets m.set).hdr
  seededMade : ∀ i ∈ t.seeded, i < t.world.nextSet
  /-- An Object about to be forwarded is recorded. -/
  pending : ∀ c ct claim obj heard, t.world.contribs c = some ct →
    ct.phase = .claimed claim obj heard → t.world.entry.ledger.Knows ct.key ct.objectID ∧
      (claim = .agedOut → t.world.entry.ledger.agesOut ct.key.group = true)
  known : ∀ m ∈ t.log, t.world.entry.ledger.Knows m.key m.id
  /-- A set is no higher than what went through it. -/
  own : ∀ m ∈ t.log, (t.world.sets m.set).forwarded = true ∧ (t.world.sets m.set).lowest ≤ m.id
  /-- A set that is not seeded knows nothing else. -/
  unseeded : ∀ i ∉ t.seeded, (t.world.sets i).forwarded = true →
    ∃ m ∈ t.log, m.set = i ∧ m.id = (t.world.sets i).lowest
  /-- The answer of `LowestForwarded` is no higher than what went through earlier sets. -/
  answer : ∀ c ct subs gen lowest, t.world.contribs c = some ct →
    ct.phase = .seeding subs gen lowest → t.world.entry.ledger.agesOut ct.key.group = true ∨
      ∀ m ∈ t.log, m.key = ct.key → m.set ≠ ct.set → ∃ low, lowest = some low ∧ low ≤ m.id
  /-- A seeded set is no higher than anything forwarded in its Subgroup. -/
  covered : ∀ k i refs, t.world.entry.subgroups.lookup k = some ⟨i, refs⟩ → i ∈ t.seeded →
    t.world.entry.ledger.agesOut k.group = true ∨
      ∀ m ∈ t.log, m.key = k →
        (t.world.sets i).forwarded = true ∧ (t.world.sets i).lowest ≤ m.id

namespace Inv

variable {t : Firsts} {W' : World} {i : SetID} {s : WriterSet} {ct : Contributor} {c : ContribID}
  {subs : List SubID} {gen : Nat}

theorem init (cfg : WriterSet.Config) (cache : ObjectCache) : Inv (init cfg cache) where
  attached := .init cfg cache
  wf := .new
  named _ _ _ h := nomatch h
  logged _ h := nomatch h
  seededMade _ h := nomatch h
  pending _ _ _ _ _ h := nomatch h
  known _ h := nomatch h
  own _ h := nomatch h
  unseeded _ _ h := nomatch h
  answer _ _ _ _ _ h := nomatch h
  covered _ _ _ h := nomatch h

theorem frame (h : Inv t) (hatt : Attached W') (hlater : t.world.entry.ledger.Later W'.entry.ledger)
    (hsets : ∀ i < t.world.nextSet, (W'.sets i).start = (t.world.sets i).start)
    (hunmade : ∀ i, t.world.nextSet ≤ i → (W'.sets i).forwarded = false)
    (hlook : ∀ k i refs, W'.entry.subgroups.lookup k = some ⟨i, refs⟩ →
      (∃ refs', t.world.entry.subgroups.lookup k = some ⟨i, refs'⟩) ∨
        i = t.world.nextSet ∧ headerKey (W'.sets i).hdr = k)
    (hnext : t.world.nextSet ≤ W'.nextSet)
    (hpending : ∀ c ct, W'.contribs c = some ct → t.world.contribs c = some ct ∨
      ∀ claim obj heard, ct.phase = .claimed claim obj heard →
        W'.entry.ledger.Knows ct.key ct.objectID ∧
          (claim = .agedOut → W'.entry.ledger.agesOut ct.key.group = true))
    (hanswer : ∀ c ct, W'.contribs c = some ct → ct.phase.seeds = true →
      t.world.contribs c = some ct) : Inv ⟨W', t.log, t.seeded⟩ := by
  simp only [WriterSet.start, Prod.mk.injEq] at hsets
  refine ⟨hatt, hlater.wf, ?_, ?_, ?_, ?_, ?_, ?_, ?_, ?_, ?_⟩
  · intro k i refs hl
    rcases hlook k i refs hl with ⟨refs', hl'⟩ | ⟨-, hkey⟩
    · rw [(hsets i (h.attached.bound k _ hl')).1]
      exact h.named k i refs' hl'
    · exact hkey
  · intro m hm
    obtain ⟨hlt, hkey⟩ := h.logged m hm
    refine ⟨Nat.lt_of_lt_of_le hlt hnext, ?_⟩
    rw [(hsets _ hlt).1]
    exact hkey
  · intro i hi
    exact Nat.lt_of_lt_of_le (h.seededMade i hi) hnext
  · intro c ct claim obj heard hc hp
    rcases hpending c ct hc with hold | hnew
    · obtain ⟨hknows, haged⟩ := h.pending c ct claim obj heard hold hp
      exact ⟨hknows.later hlater, fun hclaim => hlater.evolves.aged _ (haged hclaim)⟩
    · exact hnew claim obj heard hp
  · intro m hm
    exact (h.known m hm).later hlater
  · intro m hm
    obtain ⟨hlt, -⟩ := h.logged m hm
    rw [(hsets _ hlt).2.1, (hsets _ hlt).2.2]
    exact h.own m hm
  · intro i hi (hfwd : (W'.sets i).forwarded = true)
    by_cases hlt : i < t.world.nextSet
    · rw [(hsets i hlt).2.1] at hfwd
      obtain ⟨m, hm, hset, hid⟩ := h.unseeded i hi hfwd
      exact ⟨m, hm, hset, hid.trans (hsets i hlt).2.2.symm⟩
    · rw [hunmade i (Nat.not_lt.mp hlt)] at hfwd
      cases hfwd
  · intro c ct subs gen lowest hc hp
    have hold := hanswer c ct hc (by rw [hp]; rfl)
    rcases h.answer c ct subs gen lowest hold hp with hage | hlow
    · exact .inl (hlater.evolves.aged _ hage)
    · exact .inr hlow
  · intro k i refs hl hi
    have hlt := h.seededMade i hi
    rcases hlook k i refs hl with ⟨refs', hl'⟩ | ⟨rfl, -⟩
    · rcases h.covered k i refs' hl' hi with hage | hcov
      · exact .inl (hlater.evolves.aged _ hage)
      · refine .inr fun m hm hkey => ?_
        rw [(hsets i hlt).2.1, (hsets i hlt).2.2]
        exact hcov m hm hkey
    · exact absurd hlt (Nat.lt_irrefl _)

theorem unmade (h : Inv t) (hi : t.world.nextSet ≤ i) : (t.world.sets i).forwarded = false := by
  by_contra hfwd
  have hun : i ∉ t.seeded := fun hmem => absurd (h.seededMade i hmem) (Nat.not_lt.mpr hi)
  obtain ⟨m, hm, rfl, -⟩ := h.unseeded i hun (by simpa using hfwd)
  exact absurd (h.logged m hm).1 (Nat.not_lt.mpr hi)

theorem same (h : Inv t) (hatt : Attached W') (hlater : t.world.entry.ledger.Later W'.entry.ledger)
    (hsets : ∀ i, (W'.sets i).start = (t.world.sets i).start)
    (hlook : ∀ k i refs, W'.entry.subgroups.lookup k = some ⟨i, refs⟩ →
      ∃ refs', t.world.entry.subgroups.lookup k = some ⟨i, refs'⟩)
    (hnext : W'.nextSet = t.world.nextSet)
    (hpending : ∀ c ct, W'.contribs c = some ct → t.world.contribs c = some ct ∨
      ∀ claim obj heard, ct.phase = .claimed claim obj heard →
        W'.entry.ledger.Knows ct.key ct.objectID ∧
          (claim = .agedOut → W'.entry.ledger.agesOut ct.key.group = true))
    (hother : PutsOther t.world W') : Inv ⟨W', t.log, t.seeded⟩ := by
  refine h.frame hatt hlater (fun i _ => hsets i) (fun i hi => ?_)
    (fun k i refs hl => .inl (hlook k i refs hl)) hnext.ge hpending fun c ct => hother.seeding
  have hfwd := hsets i
  simp only [WriterSet.start, Prod.mk.injEq] at hfwd
  exact hfwd.2.1.trans (h.unmade hi)

theorem start_putSet {W : World} (h : s.start = (W.sets i).start) (j : SetID) :
    ((W.putSet i s).sets j).start = (W.sets j).start := by
  simp only [putSet, update_apply]
  split_ifs with hj
  · rw [h, hj]
  · rfl

theorem start_putWriter (W : World) (i : SetID) (sub : SubID) (w : Writer) (j : SetID) :
    ((W.putWriter i sub w).sets j).start = (W.sets j).start := by
  refine start_putSet ?_ j
  rfl

theorem idle {l : Ledger} (hp : ∀ claim obj heard, ct.phase ≠ .claimed claim obj heard)
    (claim : Claim) (obj : SubgroupObject) (heard : Heard)
    (hclaimed : ct.phase = .claimed claim obj heard) :
    l.Knows ct.key ct.objectID ∧ (claim = .agedOut → l.agesOut ct.key.group = true) :=
  absurd hclaimed (hp claim obj heard)

theorem makes (h : Inv t) {hdr : SubgroupHeader} {dur : Option Nat} (hW' : W' = { t.world with
      entry := { t.world.entry with
        subgroups := t.world.entry.subgroups.insert (headerKey hdr) ⟨t.world.nextSet, 1⟩ }
      sets := update t.world.sets t.world.nextSet { hdr := hdr }
      nextSet := t.world.nextSet + 1 }.putContrib c
        { hdr := hdr, set := t.world.nextSet, phase := .created, maxCacheDuration := dur })
    (hatt : Attached W') : Inv ⟨W', t.log, t.seeded⟩ := by
  subst hW'
  refine h.frame hatt (.refl h.wf) (fun i hi => ?_) (fun i hi => ?_) (fun k i refs hl => ?_)
    (Nat.le_succ _) (putContrib_cases (idle nofun)) ?_
  · simp only [putContrib, update_of_ne (Nat.ne_of_lt hi)]
  · by_cases hnew : i = t.world.nextSet
    · subst hnew
      simp only [putContrib, update_self]
    · simp only [putContrib, update_of_ne hnew]
      exact h.unmade hi
  · by_cases hk : k = headerKey hdr
    · subst hk
      simp only [putContrib, AList.lookup_insert, some.injEq, SharedSubgroup.mk.injEq] at hl
      obtain ⟨rfl, -⟩ := hl
      refine .inr ⟨rfl, ?_⟩
      simp only [putContrib, update_self]
    · simp only [putContrib, AList.lookup_insert_ne hk] at hl
      exact .inl ⟨refs, hl⟩
  · exact fun c' ct' => PutsOther.seeding (.inr ⟨c, _, rfl, rfl⟩)

theorem leave (h : Inv t) (oor : SubID → Bool) (hatt : Attached (t.world.leave c ct oor)) :
    Inv ⟨t.world.leave c ct oor, t.log, t.seeded⟩ := by
  refine h.same hatt ?_ (fun i => ?_) (fun k i refs => TrackEntry.releaseSubgroup_lookup) rfl
    (putContrib_cases (idle nofun)) (.inr ⟨c, _, rfl, rfl⟩)
  · show t.world.entry.ledger.Later (t.world.entry.releaseSubgroup ct.key).1.ledger
    rw [TrackEntry.releaseSubgroup_ledger]
    exact .refl h.wf
  · refine start_putSet (W := t.world.putContrib c _) ?_ i
    split_ifs
    · exact WriterSet.leave_start _ _ _ _ _
    · exact WriterSet.leave_start _ _ _ _ _

theorem claimed (h : Inv t) {obj : SubgroupObject} {heard : Heard} {cache : ObjectCache}
    {claim : Claim} {freshClaimed : List (SubgroupKey × UInt64)}
    (hclaim : (t.world.entry.ledger.claimDelivered (ct.info obj)).2 = (claim, none))
    (hkind : claim = .fresh ∨ claim = .agedOut) (hW' : W' = { t.world with
        entry := t.world.entry.after (some (.claimDelivered (ct.info obj))) cache
        freshClaimed := freshClaimed }.putContrib c
      { ct.readObject obj with phase := .claimed claim obj heard }) (hatt : Attached W') :
    Inv ⟨W', t.log, t.seeded⟩ := by
  subst hW'
  obtain ⟨l', hcall⟩ : ∃ l', t.world.entry.ledger.claimDelivered (ct.info obj) =
      (l', claim, none) := ⟨_, Prod.ext rfl hclaim⟩
  have hstep := Ledger.claimDelivered_step hcall
  have hledger : (t.world.entry.ledger.call (.claimDelivered (ct.info obj))).1 = l' := by
    simp only [Ledger.call, hcall]
  refine h.same hatt (TrackEntry.later_after h.wf _ _) (fun _ => rfl)
    (fun k i refs hl => ⟨refs, hl⟩) rfl (putContrib_cases ?_) (.inr ⟨c, _, rfl, rfl⟩)
  intro claim' obj' heard' hp
  cases hp
  show (t.world.entry.ledger.call _).1.Knows ct.key ct.objectID ∧
    (claim = .agedOut → (t.world.entry.ledger.call _).1.agesOut ct.key.group = true)
  rw [hledger]
  rcases hkind with rfl | rfl
  · exact ⟨.inr (Ledger.reports_of_fresh rfl hstep), fun hne => by cases hne⟩
  · cases hstep with
    | agedOut hage => exact ⟨.inl hage, fun _ => hage⟩

theorem quiet (h : Inv t) {a : Action} (hforward : ∀ c now verdict, a ≠ .forward c now verdict)
    (hopen : ∀ c established, a ≠ .openInitial c established) (hother : PutsOther t.world W')
    (hstep : Step t.world a W') : Inv ⟨W', t.log, t.seeded⟩ := by
  have hatt := h.attached.step hstep
  have hrefl := Ledger.Later.refl h.wf
  have hsame : ∀ k i refs, t.world.entry.subgroups.lookup k = some ⟨i, refs⟩ →
      ∃ refs', t.world.entry.subgroups.lookup k = some ⟨i, refs'⟩ := fun _ _ refs hl => ⟨refs, hl⟩
  cases hstep with
  | drops | forwards => exact absurd rfl (hforward _ _ _)
  | openInitial => exact absurd rfl (hopen _ _)
  | joins hc hl =>
    exact h.same hatt hrefl (fun _ => rfl) (fun _ _ _ => TrackEntry.lookup_insert_refs hl) rfl
      (putContrib_cases (idle nofun)) hother
  | makes hc hl => exact h.makes rfl hatt
  | leave hc hp => exact h.leave _ hatt
  | moves hc hp hhdr hset hp' _ =>
    exact h.same hatt (TrackEntry.later_after h.wf _ _) (fun _ => rfl) hsame rfl
      (putContrib_cases (idle (quiet_ne_claimed hp'))) hother
  | @header c ct id obj established hc hp =>
    obtain ⟨_, _, subs, gen, noted, s, hs, -, -, heq⟩ :=
      t.world.headerRead_eq c ct id obj established
    rw [heq] at hatt hother ⊢
    have hfacts := (t.world.sets ct.set).headerRead_facts t.world.cfg established subs gen id
      s.opened
    rw [← hs] at hfacts
    exact h.same hatt hrefl (start_putSet (congrArg WriterSet.start hfacts :)) hsame rfl
      (putContrib_cases (idle nofun)) hother
  | claimAgedOut hc hp hclaim => exact h.claimed hclaim (.inr rfl) rfl hatt
  | claimFresh hc hp hclaim => exact h.claimed hclaim (.inl rfl) rfl hatt
  | @done c ct leaves hc hp =>
    refine h.same hatt hrefl (fun i => start_putSet ?_ i) hsame rfl ?_ hother
    · rfl
    · refine putContrib_cases (idle ?_)
      cases leaves <;> exact nofun
  | register => exact h.same hatt hrefl (fun _ => rfl) hsame rfl (fun _ _ hc => .inl hc) hother
  | others =>
    exact h.same hatt (TrackEntry.later_after h.wf _ _) (fun _ => rfl) hsame rfl
      (fun _ _ hc => .inl hc) hother
  | dequeue | finish =>
    exact h.same hatt hrefl (start_putWriter _ _ _ _) hsame rfl (fun _ _ hc => .inl hc) hother

theorem asks (h : Inv t) (hc : t.world.contribs c = some ct) (hp : ct.phase = .copied subs gen)
    (hW' : W' = t.world.putContrib c { ct with
      phase := .seeding subs gen
        (t.world.entry.ledger.lowestForwarded ct.hdr.groupID ct.hdr.subgroupID) }) :
    Inv ⟨W', t.log, t.seeded⟩ := by
  have hatt : Attached W' := by
    subst hW'
    exact h.attached.frame (seat_putContrib_of hc (by simp [hp]) nofun rfl rfl) rfl rfl
  subst hW'
  refine ⟨hatt, h.wf, h.named, h.logged, h.seededMade, ?_, h.known, h.own, h.unseeded, ?_,
    h.covered⟩
  · intro c' ct' claim obj heard hc' hp'
    rcases putContrib_cases (P := fun ct => ct.phase.seeds = true) rfl c' ct' hc' with hold | hnew
    · exact h.pending c' ct' claim obj heard hold hp'
    · rw [hp'] at hnew
      cases hnew
  · intro c' ct' subs' gen' lowest' hc' hp'
    rcases contribs_putContrib hc' with ⟨-, rfl⟩ | ⟨-, hc'⟩
    · cases hp'
      by_cases hage : t.world.entry.ledger.agesOut ct.key.group = true
      · exact .inl hage
      · refine .inr fun m hm hkey _ => ?_
        have hknown := (h.known m hm).resolve_left (hkey ▸ hage)
        rw [hkey] at hknown
        exact hknown
    · exact h.answer c' ct' subs' gen' lowest' hc' hp'

theorem seated (h : Inv t) (hc : t.world.contribs c = some ct) (hp : ct.phase ≠ .left) :
    ∃ refs, t.world.entry.subgroups.lookup ct.key = some ⟨ct.set, refs⟩ :=
  h.attached.live c _ _ (seat_of hc hp)

/-- One set's lowest Object falls, and a contributor of it moves on. -/
structure Lowers (t : Firsts) (W' : World) (c : ContribID) (ct : Contributor) (s : WriterSet) :
    Prop where
  attached : Attached W'
  ledger : W'.entry.ledger = t.world.entry.ledger
  subgroups : W'.entry.subgroups = t.world.entry.subgroups
  nextSet : W'.nextSet = t.world.nextSet
  sets : W'.sets = update t.world.sets ct.set s
  contribs : W'.contribs = (t.world.putContrib c { ct with phase := .loop }).contribs
  hdr : s.hdr = (t.world.sets ct.set).hdr
  lowers : (t.world.sets ct.set).forwarded = true → s.forwarded = true ∧
    s.lowest ≤ (t.world.sets ct.set).lowest

theorem Lowers.hdr_eq (hl : Lowers t W' c ct s) (i : SetID) :
    (W'.sets i).hdr = (t.world.sets i).hdr := by
  rw [hl.sets, update_apply]
  split_ifs with hi
  · rw [hl.hdr, hi]
  · rfl

theorem Lowers.below (hl : Lowers t W' c ct s) {id : UInt64}
    (h : (t.world.sets i).forwarded = true ∧ (t.world.sets i).lowest ≤ id) :
    (W'.sets i).forwarded = true ∧ (W'.sets i).lowest ≤ id := by
  rw [hl.sets, update_apply]
  split_ifs with hi
  · subst hi
    obtain ⟨hfwd, hle⟩ := hl.lowers h.1
    exact ⟨hfwd, UInt64.le_trans hle h.2⟩
  · exact h

theorem Lowers.contrib {c' : ContribID} {ct' : Contributor} (hl : Lowers t W' c ct s)
    (hc : W'.contribs c' = some ct') (hp : ct'.phase ≠ .loop) : t.world.contribs c' = some ct' := by
  rw [hl.contribs] at hc
  exact (putContrib_cases (P := fun ct => ct.phase = .loop) rfl c' ct' hc).resolve_right hp

theorem seeds (h : Inv t) {lowest : Option UInt64} (hc : t.world.contribs c = some ct)
    (hp : ct.phase = .seeding subs gen lowest) (hl : Lowers t W' c ct s)
    (hs : s.start = (lowest.elim (t.world.sets ct.set) (t.world.sets ct.set).lower).start) :
    Inv ⟨W', t.log, ct.set :: t.seeded⟩ := by
  obtain ⟨refs, hlive⟩ := h.seated hc (by simp [hp])
  have hledger := hl.ledger
  refine ⟨hl.attached, hledger ▸ h.wf, ?_, ?_, ?_, ?_, ?_, fun m hm => hl.below (h.own m hm), ?_,
    ?_, ?_⟩
  · intro k i refs' hk
    rw [hl.hdr_eq]
    exact h.named k i refs' (hl.subgroups ▸ hk)
  · intro m hm
    rw [hl.hdr_eq, hl.nextSet]
    exact h.logged m hm
  · intro i hi
    rw [hl.nextSet]
    rcases mem_cons.mp hi with rfl | hi
    · exact h.attached.bound _ _ hlive
    · exact h.seededMade i hi
  · intro c' ct' claim obj heard hc' hp'
    rw [hledger]
    exact h.pending c' ct' claim obj heard (hl.contrib hc' (by simp [hp'])) hp'
  · intro m hm
    rw [hledger]
    exact h.known m hm
  · intro i hi (hfwd : (W'.sets i).forwarded = true)
    obtain ⟨hne, hi⟩ := not_or.mp (mt mem_cons.mpr hi)
    rw [hl.sets, update_of_ne hne] at hfwd
    obtain ⟨m, hm, hset, hid⟩ := h.unseeded i hi hfwd
    refine ⟨m, hm, hset, hid.trans ?_⟩
    rw [hl.sets, update_of_ne hne]
  · intro c' ct' subs' gen' lowest' hc' hp'
    rw [hledger]
    exact h.answer c' ct' subs' gen' lowest' (hl.contrib hc' (by simp [hp'])) hp'
  · intro k i refs' hk hi
    rw [hledger]
    have hk : t.world.entry.subgroups.lookup k = some ⟨i, refs'⟩ := hl.subgroups ▸ hk
    by_cases hset : i = ct.set
    · subst hset
      obtain rfl := h.attached.inj _ _ _ _ hk hlive rfl
      refine (h.answer c ct subs gen lowest hc hp).imp_right fun hans m hm hkey => ?_
      by_cases hown : m.set = ct.set
      · exact hown ▸ hl.below (h.own m hm)
      · -- it went through an earlier set, and the ledger's answer covers it
        obtain ⟨low, rfl, hle⟩ := hans m hm hkey hown
        simp only [WriterSet.start, elim_some, Prod.mk.injEq] at hs
        obtain ⟨hfwd, hlow, -⟩ := (t.world.sets ct.set).lower_lowest low
        rw [hl.sets, update_self, hs.2.1, hs.2.2]
        exact ⟨hfwd, UInt64.le_trans hlow hle⟩
    · refine (h.covered k i refs' hk ((mem_cons.mp hi).resolve_left hset)).imp_right ?_
      exact fun hcov m hm hkey => hl.below (hcov m hm hkey)

theorem forwards (h : Inv t) {claim : Claim} {obj : SubgroupObject} {heard : Heard} {first : Bool}
    (hc : t.world.contribs c = some ct) (hp : ct.phase = .claimed claim obj heard)
    (hl : Lowers t W' c ct s) (hs : s.start = ((t.world.sets ct.set).lower ct.objectID).start) :
    Inv ⟨W', ⟨ct.set, ct.key, ct.objectID, first⟩ :: t.log, t.seeded⟩ := by
  obtain ⟨refs, hlive⟩ := h.seated hc (by simp [hp])
  have hledger := hl.ledger
  simp only [WriterSet.start, Prod.mk.injEq] at hs
  obtain ⟨hfwd, hlow, -, hcase⟩ := (t.world.sets ct.set).lower_lowest ct.objectID
  have hown : (W'.sets ct.set).forwarded = true ∧ (W'.sets ct.set).lowest ≤ ct.objectID := by
    rw [hl.sets, update_self, hs.2.1, hs.2.2]
    exact ⟨hfwd, hlow⟩
  refine ⟨hl.attached, hledger ▸ h.wf, ?_, ?_, ?_, ?_, ?_, ?_, ?_, ?_, ?_⟩
  · intro k i refs' hk
    rw [hl.hdr_eq]
    exact h.named k i refs' (hl.subgroups ▸ hk)
  · intro m hm
    rw [hl.hdr_eq, hl.nextSet]
    rcases mem_cons.mp hm with rfl | hm
    · exact ⟨h.attached.bound _ _ hlive, (h.named _ _ _ hlive).symm⟩
    · exact h.logged m hm
  · intro i hi
    exact hl.nextSet ▸ h.seededMade i hi
  · intro c' ct' claim' obj' heard' hc' hp'
    rw [hledger]
    exact h.pending c' ct' claim' obj' heard' (hl.contrib hc' (by simp [hp'])) hp'
  · intro m hm
    rw [hledger]
    rcases mem_cons.mp hm with rfl | hm
    · exact (h.pending c ct claim obj heard hc hp).1
    · exact h.known m hm
  · intro m hm
    rcases mem_cons.mp hm with rfl | hm
    · exact hown
    · exact hl.below (h.own m hm)
  · intro i hi (hfwd' : (W'.sets i).forwarded = true)
    rw [hl.sets] at hfwd' ⊢
    by_cases hset : i = ct.set
    · subst hset
      rw [update_self, hs.2.2]
      rcases hcase with heq | ⟨hold, heq⟩
      · exact ⟨_, mem_cons_self, rfl, heq.symm⟩
      · obtain ⟨m, hm, hmset, hid⟩ := h.unseeded _ hi hold
        exact ⟨m, mem_cons_of_mem _ hm, hmset, hid.trans heq.symm⟩
    · rw [update_of_ne hset] at hfwd' ⊢
      obtain ⟨m, hm, hmset, hid⟩ := h.unseeded i hi hfwd'
      exact ⟨m, mem_cons_of_mem _ hm, hmset, hid⟩
  · intro c' ct' subs' gen' lowest' hc' hp'
    rw [hledger]
    have hold := hl.contrib hc' (by simp [hp'])
    refine (h.answer c' ct' subs' gen' lowest' hold hp').imp_right fun hans m hm hkey hne => ?_
    rcases mem_cons.mp hm with rfl | hm
    · -- two contributors of one Subgroup share its set
      obtain ⟨refs', hlive'⟩ := h.seated hold (by simp [hp'])
      rw [← hkey, hlive] at hlive'
      exact absurd (congrArg SharedSubgroup.set (some.inj hlive')) hne
    · exact hans m hm hkey hne
  · intro k i refs' hk hi
    rw [hledger]
    have hk : t.world.entry.subgroups.lookup k = some ⟨i, refs'⟩ := hl.subgroups ▸ hk
    refine (h.covered k i refs' hk hi).imp_right fun hcov m hm hkey => ?_
    rcases mem_cons.mp hm with rfl | hm
    · rw [← hkey, hlive] at hk
      cases hk
      exact hown
    · exact hl.below (hcov m hm hkey)

theorem openInitial (h : Inv t) {established : SubID → Bool} {lowest : Option UInt64}
    (hc : t.world.contribs c = some ct) (hp : ct.phase = .seeding subs gen lowest)
    (hW' : W' = (t.world.putContrib c { ct with phase := .loop }).putSet ct.set
      ((t.world.sets ct.set).openInitial t.world.cfg established subs gen lowest)) :
    Inv ⟨W', t.log, ct.set :: t.seeded⟩ := by
  have hatt : Attached W' := by
    subst hW'
    exact h.attached.step (.openInitial hc hp)
  have hstart : ((t.world.sets ct.set).openInitial t.world.cfg established subs gen lowest).start =
      (lowest.elim (t.world.sets ct.set) (t.world.sets ct.set).lower).start :=
    (congrArg WriterSet.start (WriterSet.openInitial_facts _ t.world.cfg established subs gen _) :)
  refine h.seeds hc hp ?_ hstart
  subst hW'
  simp only [WriterSet.start, Prod.mk.injEq] at hstart
  refine ⟨hatt, rfl, rfl, rfl, rfl, rfl, ?_, fun hfwd => ?_⟩
  · rw [hstart.1]
    cases lowest with
    | none => rfl
    | some low => exact WriterSet.lower_hdr _ low
  · rw [hstart.2.1, hstart.2.2]
    cases lowest with
    | none => exact ⟨hfwd, UInt64.le_refl _⟩
    | some low =>
      obtain ⟨hlow, -, hle, -⟩ := (t.world.sets ct.set).lower_lowest low
      exact ⟨hlow, hle hfwd⟩

end Inv

variable {t t' : Firsts} {c : ContribID} {ct : Contributor} {claim : Claim} {obj : SubgroupObject}
  {heard : Heard} {a : Action} {key : SubgroupKey}

theorem mark_forward (hc : t.world.contribs c = some ct) (hp : ct.phase = .claimed claim obj heard)
    (now : Nat) (verdict : SubID → ForwardVerdict) {s : WriterSet} {ok : Bool}
    (hadm : ((t.world.sets ct.set).doneReading ct.objectID).admitAgedOut claim verdict
      ct.objectID = (s, ok)) : t.world.mark (.forward c now verdict) = if ok then
      some ⟨ct.set, ct.key, ct.objectID,
        ((t.world.sets ct.set).claimFirst ct.objectID ct.isTrueFirst).2⟩ else none := by
  simp only [World.mark, hc, hp, hadm]
  rfl

theorem Inv.forward (h : Inv t) (hc : t.world.contribs c = some ct)
    (hp : ct.phase = .claimed claim obj heard) (now : Nat) (verdict : SubID → ForwardVerdict) :
    Inv ⟨t.world.forward c ct claim obj heard now verdict,
      (t.world.mark (.forward c now verdict)).toList ++ t.log, t.seeded⟩ := by
  have hatt : Attached (t.world.forward c ct claim obj heard now verdict) :=
    h.attached.step (step_forward hc hp)
  obtain ⟨s, ok, hadm, hsets, hsub, hledger, hnext, hcontribs, -⟩ :=
    t.world.forward_eq c ct claim obj heard now verdict
  rw [mark_forward hc hp now verdict hadm]
  cases ok with
  | false =>
    have hstart : s.start = (t.world.sets ct.set).start :=
      (congrArg WriterSet.start (WriterSet.admitAgedOut_facts hadm) :)
    refine h.same hatt ?_ (fun i => ?_) (fun k i refs hl => ⟨refs, hsub ▸ hl⟩) hnext
      (hcontribs ▸ putContrib_cases (Inv.idle nofun)) (.inr ⟨c, _, hcontribs, rfl⟩)
    · rw [hledger]
      exact .refl h.wf
    · rw [hsets]
      exact Inv.start_putSet hstart i
  | true =>
    obtain ⟨rfl, -⟩ := admitAgedOut_true hadm
    have hstart := ((t.world.sets ct.set).doneReading ct.objectID).forward_start verdict
      ⟨c, ct.seq⟩ ct.objectID obj ct.isTrueFirst heard.count
    have hdone : ((t.world.sets ct.set).doneReading ct.objectID).start =
        (t.world.sets ct.set).start := rfl
    rw [WriterSet.lower_start hdone] at hstart
    refine h.forwards hc hp ?_ hstart
    simp only [WriterSet.start, Prod.mk.injEq] at hstart
    refine ⟨hatt, hledger, hsub, hnext, hsets, hcontribs, ?_, fun hfwd => ?_⟩
    · rw [hstart.1, WriterSet.lower_hdr]
    · rw [hstart.2.1, hstart.2.2]
      obtain ⟨hlow, -, hle, -⟩ := (t.world.sets ct.set).lower_lowest ct.objectID
      exact ⟨hlow, hle hfwd⟩

theorem Inv.step (h : Inv t) (hs : t.step a = some t') : Inv t' := by
  obtain ⟨W', hW', rfl⟩ := map_eq_some_iff.mp hs
  have hquiet : (∀ c, a ≠ .lowestForwarded c) → (∀ c now verdict, a ≠ .forward c now verdict) →
      (∀ c established, a ≠ .openInitial c established) → Inv ⟨W', t.log, t.seeded⟩ :=
    fun hl hf ho => h.quiet hf ho ((step_of hW').putsOther hl) (step_of hW')
  cases a with
  | lowestForwarded c =>
    simp only [World.step] at hW'
    split at hW'
    · next ct hc =>
      split at hW'
      · next subs gen hp =>
        cases hW'
        exact h.asks hc hp rfl
      · cases hW'
    · cases hW'
  | openInitial c established =>
    simp only [World.step] at hW'
    split at hW'
    · next ct hc =>
      split at hW'
      · next subs gen lowest hp =>
        cases hW'
        have hseeds : t.seeds (.openInitial c established) = ct.set :: t.seeded := by
          rw [Firsts.seeds, hc]
          rfl
        rw [hseeds]
        exact h.openInitial hc hp rfl
      · cases hW'
    · cases hW'
  | forward c now verdict =>
    obtain ⟨ct, claim, obj, heard, hc, hp, rfl⟩ := claimed_of_forward hW'
    exact h.forward hc hp now verdict
  | _ => exact hquiet (by simp) (by simp) (by simp)

/-! ## When the marks are right -/

theorem aged_step (h : Inv t) (hs : t.step a = some t') {group : UInt64}
    (hage : t.world.entry.ledger.agesOut group = true) :
    t'.world.entry.ledger.agesOut group = true := by
  obtain ⟨W', hW', rfl⟩ := map_eq_some_iff.mp hs
  have hledger : t.world.entry.ledger.Later W'.entry.ledger := by
    cases step_of hW' with
    | joins | makes | openInitial | done | drops | forwards | register | dequeue | finish =>
      exact .refl h.wf
    | moves | claimAgedOut | claimFresh | others => exact TrackEntry.later_after h.wf _ _
    | @header c ct id obj established hc hp =>
      obtain ⟨_, _, _, _, _, _, -, -, -, heq⟩ := t.world.headerRead_eq c ct id obj established
      rw [heq]
      exact .refl h.wf
    | @leave c ct oor hc hp =>
      show t.world.entry.ledger.Later (t.world.entry.releaseSubgroup ct.key).1.ledger
      rw [TrackEntry.releaseSubgroup_ledger]
      exact .refl h.wf
  exact hledger.evolves.aged group hage

theorem aged_run {acts : List Action} (h : Inv t) (hrun : Lib.run step t acts = some t')
    {group : UInt64} (hage : t.world.entry.ledger.agesOut group = true) :
    t'.world.entry.ledger.agesOut group = true := by
  have hinv : Inv t' ∧ t'.world.entry.ledger.agesOut group = true :=
    Lib.run_inv (P := fun t => Inv t ∧ t.world.entry.ledger.agesOut group = true)
      (fun t a t' ht hs => ⟨ht.1.step hs, aged_step ht.1 hs ht.2⟩) ⟨h, hage⟩ hrun
  exact hinv.2

theorem mark_right_iff (h : Inv t) (hc : t.world.contribs c = some ct)
    (hp : ct.phase = .claimed claim obj heard)
    (hwindow : t.world.entry.ledger.agesOut key.group = false) (now : Nat)
    (verdict : SubID → ForwardVerdict) : (∀ m ∈ t.log, ct.key = key →
      ((t.world.sets ct.set).claimFirst ct.objectID ct.isTrueFirst).2 = true → m.key = key →
        ¬ m.id < ct.objectID) ↔ ¬ t.Premature key (.forward c now verdict) := by
  have hoffering : t.offering (.forward c now verdict) = some ct := by
    simp [offering, hc, hp]
  obtain ⟨refs, hlive⟩ := h.seated hc (by simp [hp])
  simp only [WriterSet.claimFirst_iff]
  constructor
  · rintro hright ⟨ct', hct', hkey, hclaims, hseed, ⟨m, hm, hmkey, hlt⟩, hown⟩
    rw [hoffering] at hct'
    cases hct'
    refine hright m hm hkey ⟨hclaims, fun hfwd => ?_⟩ hmkey hlt
    obtain ⟨m', hm', hset, hid⟩ := h.unseeded ct.set hseed hfwd
    rw [← hid]
    exact hown m' hm' hset
  · rintro hok m hm rfl ⟨hclaims, hlowest⟩ hmkey hlt
    -- the set knows of no Object as low, so it is not seeded
    have hnone : ∀ id, id ≤ ct.objectID →
        ¬ ((t.world.sets ct.set).forwarded = true ∧ (t.world.sets ct.set).lowest ≤ id) := by
      rintro id hle ⟨hfwd, hlow⟩
      grind
    have hseed : ct.set ∉ t.seeded := by
      intro hseed
      rcases h.covered ct.key ct.set refs hlive hseed with hage | hcov
      · rw [hage] at hwindow
        cases hwindow
      · exact hnone m.id (by grind) (hcov m hm hmkey)
    refine hok ⟨ct, hoffering, rfl, hclaims, hseed, ⟨m, hm, hmkey, hlt⟩, fun m' hm' hset => ?_⟩
    by_contra hle
    exact hnone m'.id (by grind) (hset ▸ h.own m' hm')

theorem right_step_iff (h : Inv t) (hs : t.step a = some t')
    (hwindow : t'.world.entry.ledger.agesOut key.group = false) :
    Right key t'.log ↔ Right key t.log ∧ ¬ t.Premature key a := by
  have hbefore : t.world.entry.ledger.agesOut key.group = false := by
    by_contra hage
    have := aged_step h hs (by simpa using hage)
    rw [this] at hwindow
    cases hwindow
  obtain ⟨W', hW', rfl⟩ := map_eq_some_iff.mp hs
  have hquiet : t.world.mark a = none → t.offering a = none →
      (Right key ((t.world.mark a).toList ++ t.log) ↔ Right key t.log ∧ ¬ t.Premature key a) := by
    intro hmark hoff
    rw [hmark]
    refine ⟨fun hright => ⟨hright, ?_⟩, And.left⟩
    rintro ⟨ct, hct, -⟩
    rw [hoff] at hct
    cases hct
  cases a with
  | forward c now verdict =>
    obtain ⟨ct, claim, obj, heard, hc, hp, rfl⟩ := claimed_of_forward hW'
    obtain ⟨s, ok, hadm⟩ : ∃ s ok, ((t.world.sets ct.set).doneReading ct.objectID).admitAgedOut
      claim verdict ct.objectID = (s, ok) := ⟨_, _, rfl⟩
    have hiff := mark_right_iff h hc hp hbefore now verdict
    have hmark := mark_forward hc hp now verdict hadm
    cases ok with
    | true =>
      rw [hmark]
      simp only [Right, if_true, toList_some, singleton_append, pairwise_cons,
        hiff]
      exact And.comm
    | false =>
      -- dropped: the Group has aged out
      have haged : ct.key ≠ key := by
        rintro rfl
        have hclaim : claim = .agedOut := by
          by_contra hne
          simp [WriterSet.admitAgedOut, hne] at hadm
        rw [(h.pending c ct claim obj heard hc hp).2 hclaim] at hbefore
        cases hbefore
      rw [hmark]
      refine ⟨fun hright => ⟨hright, ?_⟩, And.left⟩
      exact hiff.mp fun _ _ hkey => absurd hkey haged
  | _ => exact hquiet rfl rfl

theorem right_run_iff {acts : List Action} (h : Inv t) (hrun : Lib.run step t acts = some t')
    (hwindow : t'.world.entry.ledger.agesOut key.group = false) : Right key t'.log ↔
      Right key t.log ∧ Lib.Along step (fun t a => ¬ t.Premature key a) t acts := by
  induction acts generalizing t with
  | nil =>
    cases hrun
    exact ⟨fun hright => ⟨hright, trivial⟩, And.left⟩
  | cons a acts ih =>
    obtain ⟨u, hu, hrest⟩ := Lib.run_cons.mp hrun
    have hmid : u.world.entry.ledger.agesOut key.group = false := by
      by_contra hage
      have := aged_run (h.step hu) hrest (by simpa using hage)
      rw [this] at hwindow
      cases hwindow
    rw [ih (h.step hu) hrest, right_step_iff h hu hmid, and_assoc]
    refine and_congr_right fun _ => and_congr_right fun _ => ⟨fun hrest v hv => ?_, fun hrest => ?_⟩
    · rw [hu] at hv
      cases hv
      exact hrest
    · exact hrest u hu

end Firsts

/-! ## The streams -/

namespace Writer

/-- The streams opened without ReplayingSubgroup start with Objects of `M`, the marked ones. -/
structure Begins (w : Writer) (M : UInt64 → Prop) : Prop where
  linked : w.finished = false → w.Linked
  inbox : ∀ fwd ∈ w.inbox, fwd.first = true → M fwd.absID
  /-- Between two Objects no stream is open that carries none. -/
  begun : ∀ s, w.out = some s → s.written ≠ []
  streams : ∀ s ∈ w.streams, headerKey s.header = headerKey w.hdr ∧
    (s.header.replayingSubgroup = false → ∀ p ∈ s.written.head?, M p.1)

variable {w w' : Writer} {M M' : UInt64 → Prop} {fwd : FwdObject}

theorem Begins.new (hdr : SubgroupHeader) (inboxCap maxDrops : Nat) :
    Begins { hdr := hdr, inboxCap := inboxCap, maxDropsBeforeReset := maxDrops } M where
  linked _ := .new hdr inboxCap maxDrops
  inbox _ h := nomatch h
  begun _ h := nomatch h
  streams _ h := nomatch h

theorem Begins.mono (hb : w.Begins M) (hM : ∀ id, M id → M' id) : w.Begins M' where
  linked := hb.linked
  inbox fwd hfwd hfirst := hM _ (hb.inbox fwd hfwd hfirst)
  begun := hb.begun
  streams s hs := ⟨(hb.streams s hs).1, fun hr p hp => hM _ ((hb.streams s hs).2 hr p hp)⟩

theorem Begins.of_streamState (hb : w.Begins M) (hs : w'.streamState = w.streamState)
    (hhdr : w'.hdr = w.hdr) (hinbox : ∀ fwd ∈ w'.inbox, fwd.first = true → M fwd.absID) :
    w'.Begins M := by
  have hout : w'.out = w.out := congrArg Prod.fst hs
  refine ⟨Linked.of_streamState hb.linked hs, hinbox, hout ▸ hb.begun, ?_⟩
  rw [streams_of_streamState hs, hhdr]
  exact hb.streams

theorem Begins.offered (hb : w.Begins M) (o : Offer) (obj : SubgroupObject) (first : Bool)
    (hfirst : first = true → M o.id) :
    (w.offered o obj first).Begins M ∧ (w.offered o obj first).hdr = w.hdr := by
  obtain ⟨hs, hhdr, hin⟩ := w.offered_spec o obj first
  refine ⟨hb.of_streamState hs hhdr ?_, hhdr⟩
  rcases hin with hin | ⟨follows, hin⟩
  · rw [hin]
    exact hb.inbox
  · rw [hin]
    intro fwd hmem
    rcases mem_append.mp hmem with hold | hnew
    · exact hb.inbox fwd hold
    · rw [mem_singleton.mp hnew]
      exact hfirst

/-! ### One pass of the loop -/

/-- A stream names the writer's Subgroup, and starts with a marked Object unless it is a replay. -/
def StartsMarked (hdr : SubgroupHeader) (M : UInt64 → Prop) (s : OutStream) : Prop :=
  headerKey s.header = headerKey hdr ∧
    (s.header.replayingSubgroup = false → ∀ p ∈ s.written.head?, M p.1)

theorem startsMarked_fresh (w : Writer) (first : Bool) :
    StartsMarked w.hdr M { header := w.freshHeader first } :=
  ⟨rfl, fun _ _ hp => nomatch hp⟩

theorem StartsMarked.push {hdr : SubgroupHeader} {s : OutStream} (h : StartsMarked hdr M s)
    (hne : s.written ≠ []) (id : UInt64) (obj : SubgroupObject) :
    StartsMarked hdr M (s.push id obj) := by
  refine ⟨h.1, fun hr p hp => h.2 hr p ?_⟩
  rwa [OutStream.push, List.head?_append_of_ne_nil _ hne] at hp

theorem Ready.startsMarked {w₁ : Writer} (hready : Ready w fwd w₁)
    (hb : ∀ s ∈ w.streams, StartsMarked w.hdr M s) :
    w₁.hdr = w.hdr ∧ ∀ s ∈ w₁.streams, StartsMarked w.hdr M s := by
  cases hready with
  | stays => exact ⟨rfl, hb⟩
  | @fresh code =>
    refine ⟨rfl, fun s hs => ?_⟩
    rcases mem_streams.mp hs with hpast | hout
    · refine hb s ?_
      rw [← streams_closeOut w (.reset code)]
      exact mem_streams.mpr (.inl hpast)
    · cases hout
      exact startsMarked_fresh (w.carryProps fwd) fwd.first

/-- **A stream starts with the Object it was opened for**, or carries none. -/
theorem HandleStep.startsMarked {fate : Fate} (hs : HandleStep w fwd fate w')
    (hbegun : ∀ s, w.out = some s → s.written ≠ []) (hfirst : fwd.first = true → M fwd.absID)
    (hb : ∀ s ∈ w.streams, StartsMarked w.hdr M s) :
    w'.hdr = w.hdr ∧ (∀ s, w'.out = some s → s.written ≠ []) ∧
      ∀ s ∈ w'.streams, StartsMarked w.hdr M s := by
  cases hs with
  | lagging | drained => exact ⟨rfl, hbegun, hb⟩
  | @openFailed code =>
    refine ⟨rfl, nofun, fun s hs => hb s ?_⟩
    rw [← streams_closeOut w (.reset code)]
    exact hs
  | @expired w₁ _ _ hready _ =>
    obtain ⟨hhdr, hstreams⟩ := hready.startsMarked hb
    cases hw : w₁.hasWritten with
    | true =>
      rw [dropExpired_written hw]
      refine ⟨hhdr, ?_, hstreams⟩
      cases hready with
      | stays => exact hbegun
      | fresh => cases hw
    | false =>
      -- the stream may claim FIRST_OBJECT for the Object that expired
      rw [dropExpired_fresh hw]
      refine ⟨hhdr, nofun, fun s hs => hstreams s ?_⟩
      rw [← streams_closeOut w₁ (.reset .cancelled)]
      exact hs
  | @writes w₁ _ _ hready _ =>
    obtain ⟨hhdr, hstreams⟩ := hready.startsMarked hb
    have hclosed : ∀ how, ∀ s ∈ (w₁.closeOut how).failWrites.streams, StartsMarked w.hdr M s := by
      intro how s hs
      refine hstreams s ?_
      rw [← streams_closeOut w₁ how]
      exact hs
    cases fate.write with
    | deliveryTimeout => exact ⟨hhdr, nofun, hclosed _⟩
    | failed => exact ⟨hhdr, nofun, hclosed _⟩
    | ok =>
      obtain ⟨s, hout⟩ := hready.out_isSome
      have hpush : (w₁.write fwd .ok).out = some (s.push fwd.absID (w₁.encoded fwd)) := by
        simp only [write, hout, map_some]
      refine ⟨hhdr, fun s' hs' => ?_, fun s' hs' => ?_⟩
      · rw [hpush] at hs'
        cases hs'
        simp [OutStream.push]
      · rcases mem_streams.mp hs' with hpast | hs'
        · exact hstreams s' (mem_streams.mpr (.inl hpast))
        · rw [hpush] at hs'
          cases hs'
          have hold := hstreams s (mem_streams.mpr (.inr hout))
          cases hready with
          | stays hstay _ => exact hold.push (hbegun s hout) _ _
          | fresh =>
            cases hout
            refine ⟨rfl, fun (hr : (!fwd.first) = false) p hp => ?_⟩
            cases hp
            exact hfirst (by simpa using hr)

theorem Begins.handle {rest : List FwdObject} (hb : w.Begins M) (hf : w.finished = false)
    (hin : w.inbox = fwd :: rest) (fate : Fate) :
    ({ w with inbox := rest }.handle fwd fate).Begins M ∧
      ({ w with inbox := rest }.handle fwd fate).hdr = w.hdr := by
  obtain ⟨w', hw', hstep, hl, hinbox, -⟩ := dequeue_step (hb.linked hf) fwd rest fate
  obtain ⟨hhdr, hbegun, hstreams⟩ := hstep.startsMarked (M := M) hb.begun
    (hb.inbox fwd (by simp [hin])) hb.streams
  rw [hw']
  refine ⟨⟨fun _ => hl, ?_, hbegun, ?_⟩, hhdr⟩
  · rw [hinbox]
    exact fun fwd' hmem => hb.inbox fwd' (by simp [hin, hmem])
  · rw [hhdr]
    exact hstreams

theorem Begins.finish (hb : w.Begins M) : w.finish.Begins M ∧ w.finish.hdr = w.hdr := by
  have hsame : w.finish.hdr = w.hdr ∧ w.finish.inbox = w.inbox := by
    show w.finishStream.hdr = w.hdr ∧ w.finishStream.inbox = w.inbox
    unfold finishStream
    split_ifs <;> exact ⟨rfl, rfl⟩
  refine ⟨⟨fun hf => absurd hf nofun, ?_, nofun, ?_⟩, hsame.1⟩
  · rw [hsame.2]
    exact hb.inbox
  · rw [w.streams_finish, hsame.1]
    exact hb.streams

theorem Begins.kept : WriterKept (fun hdr w (M : UInt64 → Prop) _ => w.Begins M ∧ w.hdr = hdr)
    (fun _ => True) fun _ _ => True where
  new hdr inboxCap maxDrops _ _ := ⟨.new hdr inboxCap maxDrops, rfl⟩
  numbered _ hw := ⟨hw.1.of_streamState rfl rfl hw.1.inbox, hw.2⟩
  mono _ hw := hw
  close {_ w _ _} reset code _ hw := by
    have hclose := w.close_unmarked reset code
    have hhdr : (w.close reset code).hdr = w.hdr := (congrArg Writer.hdr hclose :)
    have hinbox : (w.close reset code).inbox = w.inbox := (congrArg Writer.inbox hclose :)
    refine ⟨hw.1.of_streamState (congrArg streamState hclose :) hhdr ?_, hhdr.trans hw.2⟩
    rw [hinbox]
    exact hw.1.inbox
  dequeue fate hf _ hin hw := (hw.1.handle hf hin fate).imp_right fun hhdr => hhdr.trans hw.2
  finish _ _ _ hw := hw.1.finish.imp_right fun hhdr => hhdr.trans hw.2

end Writer

namespace Firsts

open World

def Starts (log : List FirstMark) (i : SetID) (id : UInt64) : Prop :=
  ∃ m ∈ log, m.set = i ∧ m.id = id ∧ m.first = true

def Begun (t : Firsts) : Prop :=
  EachWriter (fun hdr w M _ => w.Begins M ∧ w.hdr = hdr) (fun _ => True) t.world
    fun i _ => Starts t.log i

variable {t : Firsts}

theorem starts_cons {m : FirstMark} {log : List FirstMark} {i : SetID} (hi : i ≠ m.set) :
    Starts (m :: log) i = Starts log i := by
  funext id
  simp [Starts, Ne.symm hi]

theorem Begun.forward (h : t.Begun) {c : ContribID} {ct : Contributor} {claim : Claim}
    {obj : SubgroupObject} {heard : Heard} (hc : t.world.contribs c = some ct)
    (hp : ct.phase = .claimed claim obj heard) (now : Nat) (verdict : SubID → ForwardVerdict) :
    Begun ⟨t.world.forward c ct claim obj heard now verdict,
      (t.world.mark (.forward c now verdict)).toList ++ t.log, t.seeded⟩ := by
  have hatt : Attached (t.world.forward c ct claim obj heard now verdict) :=
    h.attached.step (step_forward hc hp)
  obtain ⟨s, ok, hadm, hsets, hsub, -, hnext, -⟩ :=
    t.world.forward_eq c ct claim obj heard now verdict
  have hdone := (h.each ct.set).of_board
    (show ((t.world.sets ct.set).doneReading ct.objectID).board = _ from rfl)
  rw [mark_forward hc hp now verdict hadm]
  refine h.offers Writer.Begins.kept hatt hc (by simp [hp]) (fun _ => ?_) hsets hsub hnext
    fun j hj => ?_
  · cases ok with
    | false =>
      unfold WriterSet.admitAgedOut at hadm
      split_ifs at hadm <;> cases hadm
      · exact hdone
      · refine hdone.mapWriters (fun sub w _ hw => ?_) fun _ _ _ => trivial
        exact (hw.1.offered ⟨⟨c, ct.seq⟩, ct.objectID, verdict sub, true⟩ {} false nofun).imp_right
          fun hhdr => hhdr.trans hw.2
    | true =>
      obtain ⟨rfl, -⟩ := admitAgedOut_true hadm
      refine (hdone.of_board (WriterSet.claimFirst_board _ ct.objectID ct.isTrueFirst)).mapWriters
        (fun sub w _ hw => ?_) fun _ _ _ => trivial
      -- the log has one Object more
      have hb : w.Begins (Starts (⟨ct.set, ct.key, ct.objectID,
          ((t.world.sets ct.set).claimFirst ct.objectID ct.isTrueFirst).2⟩ :: t.log) ct.set) :=
        hw.1.mono fun id ⟨m, hm, hrest⟩ => ⟨m, mem_cons_of_mem _ hm, hrest⟩
      obtain ⟨hoffered, hhdr⟩ := hb.offered ⟨⟨c, ct.seq⟩, ct.objectID, verdict sub, false⟩ obj _
        fun hfirst => ⟨_, mem_cons_self, rfl, rfl, hfirst⟩
      unfold WriterSet.forwardTo
      by_cases hseq : heard.count < w.seq
      · rw [if_pos hseq]
        exact ⟨hb, hw.2⟩
      · rw [if_neg hseq]
        exact ⟨hoffered, hhdr.trans hw.2⟩
  · cases ok with
    | false => rfl
    | true => exact funext fun _ => starts_cons hj

theorem Begun.step {t' : Firsts} {a : Action} (h : t.Begun) (hs : t.step a = some t') :
    t'.Begun := by
  obtain ⟨W', hW', rfl⟩ := map_eq_some_iff.mp hs
  cases a with
  | forward c now verdict =>
    obtain ⟨ct, claim, obj, heard, hc, hp, rfl⟩ := claimed_of_forward hW'
    exact h.forward hc hp now verdict
  | _ => exact EachWriter.quiet Writer.Begins.kept h (step_of hW') nofun fun _ _ _ _ _ => trivial

/-- **FIRST_OBJECT is claimed above a forwarded Object exactly by a premature step.** In every run,
    for a Subgroup whose Group is in the ledger's window: each Object marked as first is lower than
    all of the Subgroup that were forwarded before it, if and only if no step is premature; and
    every stream opened without ReplayingSubgroup that carries an Object starts with one that was
    so marked, of the Subgroup its header names. -/
theorem first_object_lowest_iff (cfg : WriterSet.Config) (cache : ObjectCache) {acts : List Action}
    {t : Firsts} (hrun : Lib.run step (init cfg cache) acts = some t) (key : SubgroupKey)
    (hwindow : t.world.entry.ledger.agesOut key.group = false) :
    (t.log.Pairwise (fun later earlier => later.key = key → later.first = true →
        earlier.key = key → ¬ earlier.id < later.id) ↔
      Lib.Along step (fun t a => ¬ t.Premature key a) (init cfg cache) acts) ∧
    ∀ i sub w, (t.world.sets i).writers sub = some (some w) → ∀ s ∈ w.streams,
      s.header.replayingSubgroup = false → ∀ id obj rest, s.written = (id, obj) :: rest →
        ⟨i, headerKey s.header, id, true⟩ ∈ t.log := by
  have hinv : Inv t := Lib.run_inv (fun _ _ _ h hs => h.step hs) (.init cfg cache) hrun
  have hinit : (init cfg cache).Begun := EachWriter.init cfg cache fun _ _ => trivial
  have hbegun : t.Begun := Lib.run_inv (fun _ _ _ h hs => Begun.step h hs) hinit hrun
  constructor
  · have hiff := right_run_iff (.init cfg cache) hrun hwindow
    exact hiff.trans ⟨And.right, fun h => ⟨.nil, h⟩⟩
  · intro i sub w hw s hs hreplay id obj rest hwritten
    obtain ⟨hbegins, hhdr⟩ := (hbegun.each i).writer hw
    obtain ⟨hkey, hfirst⟩ := hbegins.streams s hs
    obtain ⟨m, hm, rfl, rfl, hmfirst⟩ := hfirst hreplay (id, obj) (by rw [hwritten]; rfl)
    obtain ⟨-, hmkey⟩ := hinv.logged m hm
    rw [hkey, hhdr, ← hmkey, ← hmfirst]
    exact hm

/-- Contributor 0 forwards Object 3 and ends without a FIN, which discards the set. Contributor 1
    creates the next one, and contributor 2 joins it. -/
def discarded : List Action :=
  .register 0 :: opening 0 {} ++ reading 0 3 ++
    [.fail 0 false, .leave 0 fun _ => false, .acquire 1 {} none, .acquire 2 {} none]

def seedsFirst : List Action :=
  discarded ++ [.copyDownstream 1, .lowestForwarded 1, .openInitial 1 fun _ => true] ++ reading 2 5

/-- Contributor 2 is ahead of the creator; its Object goes to subscriber 0 on a stream. -/
def joinsAhead : List Action :=
  discarded ++ reading 2 5 ++ [.dequeue 1 0 {}]

theorem seedsFirst_lowest :
    ∃ t, Lib.run step (init ⟨8, 0⟩ (.new 4 0)) seedsFirst = some t ∧
      t.world.entry.ledger.agesOut 0 = false ∧ t.log.map FirstMark.first = [false, true] ∧
      (t.log.Pairwise (fun later earlier => later.key = ⟨0, 0⟩ → later.first = true →
        earlier.key = ⟨0, 0⟩ → ¬ earlier.id < later.id) ↔
      Lib.Along step (fun t a => ¬ t.Premature ⟨0, 0⟩ a) (init ⟨8, 0⟩ (.new 4 0)) seedsFirst) := by
  have hrun : Lib.run step (init ⟨8, 0⟩ (.new 4 0)) seedsFirst = some _ := rfl
  exact ⟨_, hrun, by decide, by decide, (first_object_lowest_iff _ _ hrun ⟨0, 0⟩ (by decide)).1⟩

/-- Object 5 is marked as the Subgroup's first, and opens a stream that says so, though Object 3
    was forwarded before it. -/
theorem first_above_forwarded :
    ∃ t, Lib.run step (init ⟨8, 0⟩ (.new 4 0)) joinsAhead = some t ∧
      t.world.entry.ledger.agesOut 0 = false ∧
      t.log = [⟨1, ⟨0, 0⟩, 5, true⟩, ⟨0, ⟨0, 0⟩, 3, true⟩] ∧
      ((t.world.sets 1).writers 0).map (Option.map fun w =>
          w.streams.map fun s => (s.header.replayingSubgroup, s.written.map Prod.fst)) =
        some (some [(false, [5])]) := by
  have hrun : Lib.run step (init ⟨8, 0⟩ (.new 4 0)) joinsAhead = some _ := rfl
  exact ⟨_, hrun, by decide, by decide, by decide⟩

end Firsts
end MoqGo.Relay
