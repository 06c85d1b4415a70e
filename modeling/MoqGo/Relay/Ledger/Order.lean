import MoqGo.Lib.Consistency
import MoqGo.Relay.Ledger.Marks
import MoqGo.Relay.Ledger.Window

/-!
# The malformed-track verdict does not depend on the order of arrival

Redundant publishers send the same Objects in different orders, and streams race. Whether the
ledger finds the track malformed should not depend on who was first.

An **event** is what a publisher says: an Object, or that a stream ended after one. Each says
something about the Track, a Group and a Subgroup, and two events are *compatible* when §12.1
has nothing against them together (`Event.Compat`). The ledger is a consistency checker in the
sense of `Lib.Checks`: it refuses an event exactly when it is incompatible with an earlier one
(`ledger_checks`), so a sequence of events is taken exactly when it is pairwise compatible, and
`malformed_order_independent` follows.

The events carry no Prior Gaps and touch no more Groups than the window holds: with either,
the ledger drops Objects unread, and what it never looked at cannot make it refuse anything.
-/

namespace MoqGo.Relay

open Message List AList

/-! ## Events -/

/-- What a publisher says: an Object, or that an inbound stream ended with a FIN after `last`,
    its header having set END_OF_GROUP or not. -/
inductive Event
  | object (o : ObjectInfo)
  | ended (last : ObjectInfo) (endOfGroup : Bool)
deriving DecidableEq, Repr

namespace TrackEntry

variable {S : Type}

/-- An event's calls on the entry, as `runFanout` and `handleDatagram` make them: a redundant
    Object is recorded as a duplicate. The error of either call. -/
def event (e : TrackEntry S) (now : Nat) : Event → TrackEntry S × Option Malformed
  | .object o =>
    let (e, reply) := e.call now (.claimDelivered o)
    if reply.err = none ∧ reply.claim = some .redundant then
      let (e, reply) := e.call now (.recordDuplicate o)
      (e, reply.err)
    else (e, reply.err)
  | .ended last eog =>
    let (e, reply) := e.call now (.subgroupEnded last eog)
    (e, reply.err)

/-- Some event of the run is found to make the track malformed. -/
def malformed : TrackEntry S → List (Nat × Event) → Bool
  | _, [] => false
  | e, (now, v) :: vs =>
    let (e', err) := e.event now v
    err.isSome || e'.malformed vs

end TrackEntry

namespace Event

def group : Event → UInt64
  | object o => o.group
  | ended last _ => last.group

def endMarks (p : Option (UInt64 × Bool)) : List Mark :=
  (p.map fun (atID, hard) => Mark.ending atID hard).toList

/-- What the event says about Group `g`. -/
def groupMarks (g : UInt64) : Event → List Mark
  | object o =>
    if o.group = g then .received o.normal o.object :: endMarks (groupEnd o) else []
  | ended last eog =>
    if last.group = g ∧ eog = true then endMarks (Ledger.finEnd last) else []

/-- What the event says about Subgroup `s` of Group `g`. A datagram is in none. -/
def subgroupMarks (g s : UInt64) : Event → List Mark
  | object o =>
    if o.group = g ∧ o.subgroup = s ∧ o.datagram = false then [.received o.normal o.object] else []
  | ended last _ =>
    if last.group = g ∧ last.subgroup = s then endMarks (Ledger.finEnd last) else []

/-- Nothing is received past END_OF_TRACK. -/
def TrackCompat : Event → Event → Prop
  | object a, object b =>
    (a.status = objectStatusEndOfTrack → b.loc.rank ≤ a.loc.rank) ∧
      (b.status = objectStatusEndOfTrack → a.loc.rank ≤ b.loc.rank)
  | _, _ => True

/-- A Subgroup has one Publisher Priority. -/
def PriorityCompat : Event → Event → Prop
  | object a, object b => a.datagram = false → b.datagram = false → a.group = b.group →
      a.subgroup = b.subgroup → a.priority = b.priority
  | _, _ => True

/-- §12.1 has nothing against both events. -/
structure Compat (a b : Event) : Prop where
  group : ∀ g, ∀ f ∈ a.groupMarks g, ∀ f' ∈ b.groupMarks g, f.Compat f'
  subgroup : ∀ g s, ∀ f ∈ a.subgroupMarks g s, ∀ f' ∈ b.subgroupMarks g s, f.Compat f'
  track : a.TrackCompat b
  priority : a.PriorityCompat b

theorem Compat.symm {a b : Event} (h : a.Compat b) : b.Compat a := by
  refine ⟨fun g f hf f' hf' => (h.group g f' hf' f hf).symm,
    fun g s f hf f' hf' => (h.subgroup g s f' hf' f hf).symm, ?_, ?_⟩
  · cases a <;> cases b <;> first | trivial | exact ⟨h.track.2, h.track.1⟩
  · cases a <;> cases b <;> first
      | trivial
      | exact fun hb ha hg hs => (h.priority ha hb hg.symm hs.symm).symm

end Event

/-! ## What the environment guarantees -/

/-- The session layer refuses any other Object Status, and a datagram with both a status and
    the END_OF_GROUP bit. -/
def ObjectInfo.Valid (o : ObjectInfo) : Prop :=
  o.datagram = true → o.endOfGroup = true → o.status = objectStatusNormal ∨
    o.status = objectStatusEndOfGroup ∨ o.status = objectStatusEndOfTrack

/-- No Prior Gap. -/
def ObjectInfo.NoGaps (o : ObjectInfo) : Prop := o.gaps.hasGroup = false ∧ o.gaps.hasObject = false

/-- `o` is the Object a stream's FIN came after. -/
structure ObjectInfo.IsLast (o last : ObjectInfo) : Prop where
  group : o.group = last.group
  object : o.object = last.object
  subgroup : o.subgroup = last.subgroup
  status : o.status = last.status
  priority : o.priority = last.priority
  datagram : o.datagram = false

/-- The Groups events touch. -/
def groupsOf (vs : List Event) : Finset UInt64 := (vs.map Event.group).toFinset

/-- What may come after `past`. -/
def Event.Adm (past : List Event) (v : Event) : Prop :=
  (groupsOf (v :: past)).card ≤ deliveredGroupWindow ∧
    match v with
    | .object o => o.NoGaps ∧ o.Valid
    | .ended last _ => ∃ o, .object o ∈ past ∧ o.IsLast last

/-! ## The marks of the past -/

/-- What was said about Group `g`. -/
def groupMarks (past : List Event) (g : UInt64) : Set Mark :=
  {f | ∃ v ∈ past, f ∈ v.groupMarks g}

/-- What was said about Subgroup `s` of Group `g`. -/
def subgroupMarks (past : List Event) (g s : UInt64) : Set Mark :=
  {f | ∃ v ∈ past, f ∈ v.subgroupMarks g s}

/-- A past the ledger took, all of it admissible. -/
structure Taken (past : List Event) : Prop where
  compat : ∀ a ∈ past, ∀ b ∈ past, a.Compat b
  valid : ∀ o, .object o ∈ past → o.Valid
  placed : ∀ last eog, .ended last eog ∈ past → ∃ o, .object o ∈ past ∧ o.IsLast last

variable {atID : UInt64} {hard : Bool}

theorem setsEnd_groupEnd {o : ObjectInfo} (hv : o.Valid) (h : groupEnd o = some (atID, hard)) :
    SetsEnd o.object o.normal atID hard := by
  unfold groupEnd at h
  split_ifs at h with h₁ h₂
  · cases h
    left
    simp only [Bool.or_eq_true, beq_iff_eq] at h₁
    refine ⟨?_, rfl, rfl⟩
    rcases h₁ with h₁ | h₁ <;> rw [ObjectInfo.normal, h₁] <;> rfl
  · cases h
    right
    simp only [Bool.and_eq_true, maxUint64] at h₂
    simp only [Bool.or_eq_true, beq_iff_eq, not_or] at h₁
    refine ⟨?_, rfl, rfl, by grind⟩
    rcases hv h₂.1.1 h₂.1.2 with hs | hs | hs
    · simp [ObjectInfo.normal, hs]
    · exact absurd hs h₁.1
    · exact absurd hs h₁.2

theorem setsEnd_finEnd {last : ObjectInfo} (h : Ledger.finEnd last = some (atID, hard)) :
    SetsEnd last.object last.normal atID hard := by
  unfold Ledger.finEnd at h
  split_ifs at h with h₁ h₂
  · cases h
    right
    simp only [beq_iff_eq, maxUint64] at h₂
    exact ⟨h₁, rfl, rfl, by grind⟩
  · cases h
    left
    exact ⟨by simpa using h₁, rfl, rfl⟩

theorem ending_mem_endMarks {p : Option (UInt64 × Bool)} :
    .ending atID hard ∈ Event.endMarks p ↔ p = some (atID, hard) := by
  cases p with
  | none => simp [Event.endMarks]
  | some q => simp [Event.endMarks, Mark.ending_inj, Prod.ext_iff, eq_comm]

theorem exists_of_mem_endMarks {p : Option (UInt64 × Bool)} {f : Mark} (h : f ∈ Event.endMarks p) :
    ∃ atID hard, p = some (atID, hard) ∧ f = .ending atID hard := by
  obtain ⟨q, hq, rfl⟩ := Option.map_eq_some_iff.mp (Option.mem_toList.mp h)
  exact ⟨q.1, q.2, hq, rfl⟩

theorem received_not_mem_endMarks {p : Option (UInt64 × Bool)} {id : UInt64} {normal : Bool} :
    .received normal id ∉ Event.endMarks p := by
  intro h
  obtain ⟨_, _, _, h⟩ := exists_of_mem_endMarks h
  exact Mark.ending_ne_received h.symm

namespace Event

variable {o last : ObjectInfo} {eog : Bool} {g s : UInt64} {f : Mark}

theorem mem_groupMarks_object : f ∈ (object o).groupMarks g ↔
    o.group = g ∧ (f = .received o.normal o.object ∨ f ∈ endMarks (groupEnd o)) := by
  simp [groupMarks]

theorem mem_groupMarks_ended : f ∈ (ended last eog).groupMarks g ↔
    (last.group = g ∧ eog = true) ∧ f ∈ endMarks (Ledger.finEnd last) := by
  simp [groupMarks]

theorem mem_subgroupMarks_object : f ∈ (object o).subgroupMarks g s ↔
    (o.group = g ∧ o.subgroup = s ∧ o.datagram = false) ∧ f = .received o.normal o.object := by
  simp [subgroupMarks]

theorem mem_subgroupMarks_ended : f ∈ (ended last eog).subgroupMarks g s ↔
    (last.group = g ∧ last.subgroup = s) ∧ f ∈ endMarks (Ledger.finEnd last) := by
  simp [subgroupMarks]

end Event

theorem received_mem_groupMarks {past : List Event} {g id : UInt64} {normal : Bool} :
    .received normal id ∈ groupMarks past g ↔
      ∃ o, .object o ∈ past ∧ o.group = g ∧ o.object = id ∧ o.normal = normal := by
  constructor
  · rintro ⟨v, hv, hf⟩
    cases v with
    | ended last eog =>
      exact absurd (Event.mem_groupMarks_ended.mp hf).2 received_not_mem_endMarks
    | object o =>
      obtain ⟨hg, h | h⟩ := Event.mem_groupMarks_object.mp hf
      · obtain ⟨rfl, rfl⟩ := Mark.received_inj.mp h
        exact ⟨o, hv, hg, rfl, rfl⟩
      · exact absurd h received_not_mem_endMarks
  · rintro ⟨o, ho, rfl, rfl, rfl⟩
    exact ⟨_, ho, Event.mem_groupMarks_object.mpr ⟨rfl, .inl rfl⟩⟩

theorem Mark.Compat.ending_self : (Mark.ending atID hard).Compat (.ending atID hard) := by
  cases hard <;> rfl

theorem endMarks_compat {p : Option (UInt64 × Bool)} {f f' : Mark} (hf : f ∈ Event.endMarks p)
    (hf' : f' ∈ Event.endMarks p) : f.Compat f' := by
  obtain ⟨_, _, hend, rfl⟩ := exists_of_mem_endMarks hf
  obtain ⟨_, _, hend', rfl⟩ := exists_of_mem_endMarks hf'
  cases hend.symm.trans hend'
  exact .ending_self

theorem Event.Compat.self {v : Event} (hv : ∀ o, v = .object o → o.Valid) : v.Compat v := by
  cases v with
  | object o =>
    have hreceived : (Mark.received o.normal o.object).Compat (.received o.normal o.object) := by
      cases o.normal <;> trivial
    have hend : ∀ f ∈ endMarks (groupEnd o), (Mark.received o.normal o.object).Compat f := by
      intro f hf
      obtain ⟨_, _, hend, rfl⟩ := exists_of_mem_endMarks hf
      exact (setsEnd_groupEnd (hv o rfl) hend).compat
    refine ⟨fun g f hf f' hf' => ?_, fun g s f hf f' hf' => ?_, ⟨fun _ => le_rfl, fun _ => le_rfl⟩,
      fun _ _ _ _ => rfl⟩
    · obtain ⟨-, rfl | hf⟩ := mem_groupMarks_object.mp hf <;>
        obtain ⟨-, rfl | hf'⟩ := mem_groupMarks_object.mp hf'
      · exact hreceived
      · exact hend f' hf'
      · exact (hend f hf).symm
      · exact endMarks_compat hf hf'
    · obtain ⟨-, rfl⟩ := mem_subgroupMarks_object.mp hf
      obtain ⟨-, rfl⟩ := mem_subgroupMarks_object.mp hf'
      exact hreceived
  | ended last eog =>
    refine ⟨fun g f hf f' hf' => ?_, fun g s f hf f' hf' => ?_, trivial, trivial⟩
    · exact endMarks_compat (mem_groupMarks_ended.mp hf).2 (mem_groupMarks_ended.mp hf').2
    · exact endMarks_compat (mem_subgroupMarks_ended.mp hf).2 (mem_subgroupMarks_ended.mp hf').2

namespace Taken

theorem cons {past : List Event} {v : Event} (ht : Taken past) (ha : v.Adm past)
    (hcompat : ∀ b ∈ past, b.Compat v) : Taken (v :: past) := by
  have hv : ∀ o, v = .object o → o.Valid := by
    rintro o rfl
    exact ha.2.2
  refine ⟨?_, ?_, ?_⟩
  · intro a hma b hmb
    rcases mem_cons.mp hma with rfl | ha' <;> rcases mem_cons.mp hmb with rfl | hb'
    · exact .self hv
    · exact (hcompat b hb').symm
    · exact hcompat a ha'
    · exact ht.compat a ha' b hb'
  · intro o ho
    rcases mem_cons.mp ho with h | h
    · exact hv o h.symm
    · exact ht.valid o h
  · intro last eog h
    rcases mem_cons.mp h with rfl | h
    · obtain ⟨o, ho, hl⟩ := ha.2
      exact ⟨o, mem_cons_of_mem _ ho, hl⟩
    · obtain ⟨o, ho, hl⟩ := ht.placed last eog h
      exact ⟨o, mem_cons_of_mem _ ho, hl⟩

variable {past : List Event} (ht : Taken past)

include ht

theorem consistent_group (g : UInt64) : Consistent (groupMarks past g) := by
  rintro f ⟨a, ha, hf⟩ f' ⟨b, hb, hf'⟩
  exact (ht.compat a ha b hb).group g f hf f' hf'

theorem consistent_subgroup (g s : UInt64) : Consistent (subgroupMarks past g s) := by
  rintro f ⟨a, ha, hf⟩ f' ⟨b, hb, hf'⟩
  exact (ht.compat a ha b hb).subgroup g s f hf f' hf'

/-- An end in the past comes with its Object, in the Group and in the Subgroup. -/
theorem closed_group (g : UInt64) : Closed (groupMarks past g) := by
  refine .of_setsEnd fun atID hard ⟨v, hv, hf⟩ => ?_
  cases v with
  | object o =>
    obtain ⟨hg, hf | hf⟩ := Event.mem_groupMarks_object.mp hf
    · exact absurd hf Mark.ending_ne_received
    · refine ⟨_, _, setsEnd_groupEnd (ht.valid o hv) (ending_mem_endMarks.mp hf), _, hv, ?_⟩
      exact Event.mem_groupMarks_object.mpr ⟨hg, .inl rfl⟩
  | ended last eog =>
    obtain ⟨hg, hf⟩ := Event.mem_groupMarks_ended.mp hf
    obtain ⟨o, ho, hlast⟩ := ht.placed last eog hv
    refine ⟨_, _, setsEnd_finEnd (ending_mem_endMarks.mp hf), .object o, ho, ?_⟩
    simp [Event.groupMarks, hlast.group, hg.1, hlast.object, ObjectInfo.normal, hlast.status]

theorem closed_subgroup (g s : UInt64) : Closed (subgroupMarks past g s) := by
  refine .of_setsEnd fun atID hard ⟨v, hv, hf⟩ => ?_
  cases v with
  | object o =>
    exact absurd (Event.mem_subgroupMarks_object.mp hf).2 Mark.ending_ne_received
  | ended last eog =>
    obtain ⟨hg, hf⟩ := Event.mem_subgroupMarks_ended.mp hf
    obtain ⟨o, ho, hlast⟩ := ht.placed last eog hv
    refine ⟨_, _, setsEnd_finEnd (ending_mem_endMarks.mp hf), .object o, ho, ?_⟩
    simp [Event.subgroupMarks, hlast.group, hlast.subgroup, hlast.datagram, hg, hlast.object,
      ObjectInfo.normal, hlast.status]

end Taken

/-! ## One event on the ledger -/

namespace Ledger

/-- The ledger after an event, or nothing where one of its calls reports an error. -/
def take (e : Ledger) : Event → Option Ledger
  | .object o =>
    match e.claimDelivered o with
    | (_, _, some _) => none
    | (e', .redundant, none) =>
      match e'.recordDuplicate o with
      | (_, some _) => none
      | (e'', none) => some e''
    | (e', _, none) => some e'
  | .ended last eog =>
    match e.subgroupEnded last eog with
    | (_, some _) => none
    | (e', none) => some e'

def groupOf (e : Ledger) (id : UInt64) : DeliveredGroup := (e.delivered.lookup id).getD {}

end Ledger

def DeliveredGroup.subgroupOf (g : DeliveredGroup) (s : UInt64) : SubgroupLedger :=
  (g.subgroups.lookup s).getD {}

namespace Ledger

/-- What an Object leaves in the ledger, once checked: fresh or not, the same. -/
def recorded (e : Ledger) (o : ObjectInfo) : Ledger :=
  let (e, g) := e.openGroup o.group
  (e.recordTrackEnd o).put o.group
    { recordGroup g o with objects := insert o.object g.objects }

/-- The ledger stands for the events it took. -/
structure Summarises (e : Ledger) (past : List Event) : Prop where
  taken : Taken past
  wf : e.WF
  groupGaps : e.groupGaps = []
  clean : ∀ id g, e.delivered.lookup id = some g → g.objectGaps = [] ∧ g.hasGroupGap = false
  held : ∀ id, (e.delivered.lookup id).isSome = true ↔ ∃ o, .object o ∈ past ∧ o.group = id
  group : ∀ id, (e.groupOf id).toMarks.Rep (groupMarks past id)
  subgroup : ∀ id s, ((e.groupOf id).subgroupOf s).toMarks.Rep (subgroupMarks past id s)
  priority : ∀ o, .object o ∈ past → o.datagram = false →
    ∃ sg, (e.groupOf o.group).subgroups.lookup o.subgroup = some sg ∧ sg.priority = o.priority
  subgroup_object : ∀ id s sg, (e.groupOf id).subgroups.lookup s = some sg →
    ∃ o, .object o ∈ past ∧ o.datagram = false ∧ o.group = id ∧ o.subgroup = s
  trackEnd : e.hasTrackEnd = true ↔
    ∃ o, .object o ∈ past ∧ o.status = objectStatusEndOfTrack
  trackEnd_loc : ∀ o, .object o ∈ past → o.status = objectStatusEndOfTrack → e.trackEnd = o.loc

theorem Summarises.new : Summarises {} [] := by
  refine ⟨⟨by simp, by simp, by simp⟩, .new, rfl, by simp, by simp, fun id => ?_, fun id s => ?_,
    by simp, by simp [groupOf], by simp, by simp⟩
  · simpa [groupMarks, groupOf] using Marks.Rep.empty
  · simpa [subgroupMarks, groupOf, DeliveredGroup.subgroupOf] using Marks.Rep.empty

theorem receivedPast_iff {e : Ledger} {loc : Location} :
    e.receivedPast loc = true ↔ ∃ id g, e.delivered.lookup id = some g ∧
      (loc.group < id ∨ id = loc.group ∧ g.pastEnd ⟨loc.object, true, false⟩ = true) := by
  simp only [receivedPast, any_eq_true, Bool.or_eq_true, decide_eq_true_eq, Bool.and_eq_true,
    beq_iff_eq]
  constructor
  · rintro ⟨⟨id, g⟩, hmem, h⟩
    exact ⟨id, g, mem_lookup_iff.mpr hmem, h⟩
  · rintro ⟨id, g, hg, h⟩
    exact ⟨⟨id, g⟩, mem_lookup_iff.mp hg, h⟩

theorem checkEnds_put_self {e : Ledger} {id : UInt64} {g : DeliveredGroup}
    (hg : e.delivered.lookup id = some g) (g' : Option DeliveredGroup) (o : ObjectInfo) :
    (e.put id g).checkEnds g' o = e.checkEnds g' o := by
  have hlook : ∀ id', (e.put id g).delivered.lookup id' = e.delivered.lookup id' := by
    intro id'
    by_cases h : id' = id
    · subst h
      rw [hg]
      exact lookup_insert _
    · exact lookup_insert_ne h
  have hpast : (e.put id g).receivedPast o.loc = e.receivedPast o.loc := by
    rw [Bool.eq_iff_iff, receivedPast_iff, receivedPast_iff]
    simp only [hlook]
  simp only [checkEnds, checkTrackEnd, hpast]
  rfl

section Object

variable {e : Ledger} {past : List Event} {o : ObjectInfo}

section

variable (hs : e.Summarises past) (ha : Event.Adm past (.object o))
include hs ha

theorem Summarises.room (hnew : e.delivered.lookup o.group = none) :
    e.delivered.keys.length < deliveredGroupWindow := by
  have hsub : e.delivered.keys.toFinset ⊆ (groupsOf (.object o :: past)).erase o.group := by
    intro id hid
    rw [mem_toFinset] at hid
    have hsome : (e.delivered.lookup id).isSome = true := by
      rwa [AList.lookup_isSome, AList.mem_keys]
    obtain ⟨o', ho', rfl⟩ := (hs.held id).mp hsome
    rw [Finset.mem_erase]
    refine ⟨fun h => ?_, ?_⟩
    · rw [h, hnew] at hsome
      cases hsome
    · rw [groupsOf, mem_toFinset, mem_map]
      exact ⟨_, mem_cons_of_mem _ ho', rfl⟩
  have hmem : o.group ∈ groupsOf (.object o :: past) := by simp [groupsOf, Event.group]
  have hcard := Finset.card_le_card hsub
  rw [toFinset_card_of_nodup (keys_nodup _), Finset.card_erase_of_mem hmem] at hcard
  have hpos : 0 < (groupsOf (.object o :: past)).card := Finset.card_pos.mpr ⟨_, hmem⟩
  have := ha.1
  omega

theorem Summarises.not_agesOut : e.agesOut o.group = false := by
  by_contra h
  obtain ⟨hnk, hfull, -⟩ := agesOut_iff.mp (by simpa using h)
  have hnew : e.delivered.lookup o.group = none := by
    rwa [AList.lookup_eq_none, AList.mem_keys]
  have := hs.room ha hnew
  omega

theorem Summarises.openGroup :
    ∃ e₁, e.openGroup o.group = (e₁, e.groupOf o.group) ∧ e₁.WF ∧
      e₁.delivered.lookup o.group = some (e.groupOf o.group) ∧
      (∀ id, id ≠ o.group → e₁.delivered.lookup id = e.delivered.lookup id) ∧
      e₁.groupGaps = e.groupGaps ∧ e₁.trackEnd = e.trackEnd ∧ e₁.hasTrackEnd = e.hasTrackEnd := by
  have hage := hs.not_agesOut ha
  cases hg : e.delivered.lookup o.group with
  | some g =>
    refine ⟨e, ?_, hs.wf, ?_, fun _ _ => rfl, rfl, rfl, rfl⟩ <;>
      simp [Ledger.openGroup, groupOf, hg]
  | none =>
    have hroom := hs.room ha hg
    obtain ⟨hwf, -, hlook⟩ := addDeliveredGroup_spec hs.wf {} hg hage
    have hmake : e.makeRoom = e := by
      unfold makeRoom
      rw [if_neg (by omega)]
    refine ⟨e.addDeliveredGroup o.group {}, ?_, hwf, ?_, fun id hid => ?_, ?_, ?_, ?_⟩
    · simp [Ledger.openGroup, groupOf, hg]
    · simpa [groupOf, hg] using hlook
    · simp [addDeliveredGroup, hmake, lookup_insert_ne hid]
    all_goals simp [addDeliveredGroup, hmake]

end

theorem recordGaps_noGaps (e : Ledger) (g : DeliveredGroup) (group object : UInt64)
    {gaps : PriorGaps} (hgroup : gaps.hasGroup = false) (hobject : gaps.hasObject = false) :
    e.recordGaps g group object gaps = (e, g) := by
  have hobj : recordObjectGap g object gaps = g := by
    unfold recordObjectGap
    split <;> simp [hobject]
  simp [recordGaps, hobj, hgroup]

/-- **An Object event is one check and one record**, whichever copy of the Object it is. -/
theorem Summarises.take_object (hs : e.Summarises past) (ha : Event.Adm past (.object o)) :
    e.take (.object o) =
      if e.checkEnds (e.delivered.lookup o.group) o = none then some (e.recorded o) else none := by
  obtain ⟨e₁, hopen, -, hlook, -⟩ := hs.openGroup ha
  have hage := hs.not_agesOut ha
  have hgap : checkGroupGap (e.delivered.lookup o.group) o = none := by
    unfold checkGroupGap
    split
    · simp [ha.2.1.1]
    · rfl
  have habs : e.announcedAbsent (e.delivered.lookup o.group) o.group o.object = false := by
    unfold announcedAbsent
    cases hg : e.delivered.lookup o.group with
    | none => simp [hs.groupGaps]
    | some g => simp [hs.groupGaps, (hs.clean _ g hg).1]
  have hrec := fun e g => recordGaps_noGaps e g o.group o.object ha.2.1.1 ha.2.1.2
  cases hchk : e.checkEnds (e.delivered.lookup o.group) o with
  | some err => simp [take, claimDelivered, hage, hgap, hchk]
  | none =>
    simp only [take, claimDelivered, hage, hgap, hchk, habs, hopen, hrec, Option.or_none,
      Bool.false_eq_true, if_false, if_true]
    by_cases hobj : o.object ∈ (e.groupOf o.group).objects
    · -- a duplicate: its Group was held, and the second check repeats the first
      rw [if_pos hobj]
      obtain ⟨g, hg⟩ : ∃ g, e.delivered.lookup o.group = some g := by
        cases hg : e.delivered.lookup o.group with
        | none => simp [groupOf, hg] at hobj
        | some g => exact ⟨g, rfl⟩
      have hgof : e.groupOf o.group = g := by simp [groupOf, hg]
      have he₁ : e₁ = e := by
        simp only [Ledger.openGroup, hg, Prod.mk.injEq] at hopen
        exact hopen.1.symm
      subst he₁
      rw [hgof] at hobj
      rw [hg] at hchk
      have hput : (e₁.put o.group g).delivered.lookup o.group = some g := lookup_insert _
      simp only [recordDuplicate, hgof, hput, hobj, not_true_eq_false, if_false,
        checkEnds_put_self hg, hchk, recorded, hopen, Finset.insert_eq_of_mem]
      congr 1
      unfold recordTrackEnd
      split_ifs <;> simp [put, insert_insert] <;> rfl
    · rw [if_neg hobj]
      simp [recorded, hopen]

/-! ### The check of an Object -/

theorem Summarises.checkTrackEnd_iff (hs : e.Summarises past) :
    e.checkTrackEnd o = none ↔ ∀ b ∈ past, b.TrackCompat (.object o) := by
  have hnone : e.checkTrackEnd o = none ↔
      (e.hasTrackEnd = true → o.loc.rank ≤ e.trackEnd.rank) ∧
      (o.status = objectStatusEndOfTrack →
        (e.hasTrackEnd = true → e.trackEnd = o.loc) ∧ e.receivedPast o.loc = false) := by
    unfold checkTrackEnd
    split_ifs with h₁ h₂ h₃ h₄ <;>
      simp only [Bool.and_eq_true, bne_iff_ne, ne_eq, Location.less_iff, not_and, not_lt] at * <;>
      grind
  rw [hnone]
  constructor
  · rintro ⟨hpast, hend⟩ b hb
    cases b with
    | ended => trivial
    | object a =>
      refine ⟨fun ha => ?_, fun ho => ?_⟩
      · rw [← hs.trackEnd_loc a hb ha]
        exact hpast (hs.trackEnd.mpr ⟨a, hb, ha⟩)
      · -- `a` is in a Group held, and at most the largest Object there
        obtain ⟨-, hrec⟩ := hend ho
        by_contra hlt
        rw [← Bool.not_eq_true, receivedPast_iff] at hrec
        apply hrec
        obtain ⟨g, hg⟩ := Option.isSome_iff_exists.mp ((hs.held a.group).mpr ⟨a, hb, rfl⟩)
        refine ⟨a.group, g, hg, ?_⟩
        have hrank : o.group < a.group ∨ a.group = o.group ∧ o.object < a.object := by
          have h₂ := a.object.toNat_lt
          simp only [Location.rank, ObjectInfo.loc] at hlt
          simp only [UInt64.lt_iff_toNat_lt, ← UInt64.toNat_inj]
          omega
        refine hrank.imp id fun hsame => ⟨hsame.1, ?_⟩
        have hobj := hsame.2
        have hmarks := hs.group a.group
        rw [show e.groupOf a.group = g by simp [groupOf, hg]] at hmarks
        have hmem : Mark.received a.normal a.object ∈ groupMarks past a.group :=
          received_mem_groupMarks.mpr ⟨a, hb, rfl, rfl, rfl⟩
        by_contra hnp
        rw [Bool.not_eq_true, hmarks.pastEnd_iff] at hnp
        cases hn : a.normal with
        | true =>
          rw [hn] at hmem
          have := hnp.1 _ hmem
          simp [End.past, ObjectInfo.loc, hobj] at this
        | false =>
          rw [hn] at hmem
          have := hnp.2 _ hmem
          simp [End.past, ObjectInfo.loc, hobj] at this
  · intro hall
    refine ⟨fun hset => ?_, fun ho => ⟨fun hset => ?_, ?_⟩⟩
    · obtain ⟨a, ha, hst⟩ := hs.trackEnd.mp hset
      rw [hs.trackEnd_loc a ha hst]
      exact (hall _ ha).1 hst
    · obtain ⟨a, ha, hst⟩ := hs.trackEnd.mp hset
      rw [hs.trackEnd_loc a ha hst, ← Location.rank_inj]
      exact le_antisymm ((hall _ ha).2 ho) ((hall _ ha).1 hst)
    · rw [← Bool.not_eq_true, receivedPast_iff]
      rintro ⟨id, g, hg, hpast⟩
      rcases hpast with hlt | ⟨rfl, hpast⟩
      · obtain ⟨a, ha, rfl⟩ := (hs.held id).mp (by simp [hg])
        have hle := (hall _ ha).2 ho
        have h₁ := o.object.toNat_lt
        simp only [Location.rank, ObjectInfo.loc, UInt64.lt_iff_toNat_lt] at hle hlt
        omega
      · have hmarks := hs.group o.loc.group
        rw [show e.groupOf o.loc.group = g by simp [groupOf, hg]] at hmarks
        -- every Object of the Group is at or below `o`
        have hle : ∀ n x, Mark.received n x ∈ groupMarks past o.group → x ≤ o.object := by
          intro n x hx
          obtain ⟨a, ha, hga, rfl, -⟩ := received_mem_groupMarks.mp hx
          have := (hall _ ha).2 ho
          simp only [Location.rank, ObjectInfo.loc, hga] at this
          rw [UInt64.le_iff_toNat_le]
          omega
        have hnp : g.pastEnd ⟨o.loc.object, true, false⟩ = false := by
          refine hmarks.pastEnd_iff.mpr ⟨fun x hx => ?_, fun x hx => ?_⟩
          · have := hle true x hx
            simp only [End.past, ObjectInfo.loc]
            grind
          · have := hle false x hx
            simp only [End.past, ObjectInfo.loc]
            grind
        rw [hnp] at hpast
        cases hpast

theorem checkGroup_eq_none {g : DeliveredGroup} :
    checkGroup g o = none ↔
      (g.ending.past o.object o.normal = false ∧ ∀ p, groupEnd o = some p →
        g.ending.conflicts p.1 p.2 = false ∧ g.pastEnd (g.ending.withEnd p.1 p.2) = false) ∧
      (o.datagram = false → checkSubgroup g o = none) := by
  have hend : ∀ atID hard, checkGroupEnd g.toMarks o.group atID hard = none ↔
      g.ending.conflicts atID hard = false ∧
        g.pastEnd (g.ending.withEnd atID hard) = false := by
    intro atID hard
    unfold checkGroupEnd
    split_ifs with h₁ h₂ <;> simp [h₁] <;> simpa using h₂
  unfold checkGroup
  split_ifs with hpast hdg
  · simp [hpast]
  · cases hge : groupEnd o with
    | none => simp [hdg, hpast]
    | some p => simp [hdg, hpast, hend]
  · cases hge : groupEnd o with
    | none => simp [hdg, hpast]
    | some p => simp [hdg, hpast, hend]

theorem Summarises.group_iff (hs : e.Summarises past) (hv : o.Valid) :
    ((e.groupOf o.group).ending.past o.object o.normal = false ∧
        ∀ p, groupEnd o = some p → (e.groupOf o.group).ending.conflicts p.1 p.2 = false ∧
          (e.groupOf o.group).pastEnd ((e.groupOf o.group).ending.withEnd p.1 p.2) = false) ↔
      ∀ f ∈ groupMarks past o.group, ∀ f' ∈ Event.groupMarks o.group (.object o), f.Compat f' := by
  have hr := hs.group o.group
  have hF := hs.taken.consistent_group o.group
  have hc := hs.taken.closed_group o.group
  cases hend : groupEnd o with
  | none => simp [hr.past_iff hc, Event.groupMarks, Event.endMarks, hend]
  | some p =>
    have hiff := hr.object_end_iff hF hc (setsEnd_groupEnd hv hend)
    simpa [Event.groupMarks, Event.endMarks, hend, forall_and] using hiff

theorem Summarises.checkSubgroup_iff (hs : e.Summarises past) (hdg : o.datagram = false) :
    checkSubgroup (e.groupOf o.group) o = none ↔
      (∀ f ∈ subgroupMarks past o.group o.subgroup, f.Compat (.received o.normal o.object)) ∧
        ∀ b ∈ past, b.PriorityCompat (.object o) := by
  have hr := hs.subgroup o.group o.subgroup
  have hc := hs.taken.closed_subgroup o.group o.subgroup
  rw [← hr.past_iff hc]
  unfold checkSubgroup DeliveredGroup.subgroupOf
  cases hsg : (e.groupOf o.group).subgroups.lookup o.subgroup with
  | none =>
    simp only [Option.getD_none, true_iff]
    refine ⟨by simp [End.past], fun b hb => ?_⟩
    cases b with
    | ended => trivial
    | object a =>
      intro ha _ hg hsub
      obtain ⟨sg, hsg', -⟩ := hs.priority a hb ha
      rw [hg, hsub, hsg] at hsg'
      cases hsg'
  | some sg =>
    obtain ⟨a, ha, hadg, hag, has⟩ := hs.subgroup_object _ _ sg hsg
    have hprio : ∀ b, .object b ∈ past → b.datagram = false → b.group = o.group →
        b.subgroup = o.subgroup → sg.priority = b.priority := by
      intro b hb hbdg hbg hbs
      obtain ⟨sg', hsg', hp⟩ := hs.priority b hb hbdg
      rw [hbg, hbs, hsg, Option.some.injEq] at hsg'
      rw [hsg', hp]
    simp only [Option.getD_some]
    split_ifs with h₁ h₂
    · rw [bne_iff_ne] at h₁
      simp only [false_iff, not_and]
      intro _ hall
      exact h₁ ((hprio a ha hadg hag has).trans (hall _ ha hadg hdg hag has))
    · simp [h₂]
    · simp only [true_iff]
      refine ⟨by simpa using h₂, fun b hb => ?_⟩
      cases b with
      | ended => trivial
      | object b =>
        intro hbdg _ hbg hbs
        rw [← hprio b hb hbdg hbg hbs]
        simpa using h₁

theorem forall_compat_object : (∀ b ∈ past, b.Compat (.object o)) ↔
    (∀ f ∈ groupMarks past o.group, ∀ f' ∈ Event.groupMarks o.group (.object o), f.Compat f') ∧
    (o.datagram = false → ∀ f ∈ subgroupMarks past o.group o.subgroup,
      f.Compat (.received o.normal o.object)) ∧
    (∀ b ∈ past, b.TrackCompat (.object o)) ∧ ∀ b ∈ past, b.PriorityCompat (.object o) := by
  constructor
  · intro hall
    refine ⟨?_, ?_, fun b hb => (hall b hb).track, fun b hb => (hall b hb).priority⟩
    · rintro f ⟨b, hb, hf⟩ f' hf'
      exact (hall b hb).group _ f hf f' hf'
    · rintro hdg f ⟨b, hb, hf⟩
      exact (hall b hb).subgroup _ _ f hf _ (by simp [Event.subgroupMarks, hdg])
  · rintro ⟨hg, hsub, ht, hp⟩ b hb
    refine ⟨fun g f hf f' hf' => ?_, fun g s f hf f' hf' => ?_, ht b hb, hp b hb⟩
    · obtain ⟨rfl, -⟩ := Event.mem_groupMarks_object.mp hf'
      exact hg f ⟨b, hb, hf⟩ f' hf'
    · obtain ⟨⟨rfl, rfl, hdg⟩, rfl⟩ := Event.mem_subgroupMarks_object.mp hf'
      exact hsub hdg f ⟨b, hb, hf⟩

/-- **An Object is refused exactly when it is incompatible with an event taken before.** -/
theorem Summarises.checkEnds_iff (hs : e.Summarises past) (hv : o.Valid) :
    e.checkEnds (e.delivered.lookup o.group) o = none ↔ ∀ b ∈ past, b.Compat (.object o) := by
  have hgroup : ((e.delivered.lookup o.group).bind fun g => checkGroup g o) = none ↔
      checkGroup (e.groupOf o.group) o = none := by
    cases hg : e.delivered.lookup o.group with
    | some g => simp [groupOf, hg]
    | none =>
      simp only [groupOf, hg, Option.bind_none, Option.getD_none, true_iff]
      rw [checkGroup_eq_none]
      simp [End.past, End.conflicts, Marks.pastEnd, checkSubgroup]
  rw [checkEnds, Option.or_eq_none_iff, hs.checkTrackEnd_iff, hgroup, checkGroup_eq_none,
    hs.group_iff hv, forall_compat_object]
  by_cases hdg : o.datagram = false
  · simp only [hdg, forall_const, hs.checkSubgroup_iff hdg]
    tauto
  · have hprio : ∀ b ∈ past, b.PriorityCompat (.object o) := by
      intro b _
      cases b with
      | ended => trivial
      | object => exact fun _ h => absurd h hdg
    tauto

/-! ### The record of an Object -/

theorem recordGroup_toMarks (g : DeliveredGroup) (o : ObjectInfo) :
    (recordGroup g o).toMarks = match groupEnd o with
      | some p => { g.received o.normal o.object with
          ending := (g.received o.normal o.object).ending.withEnd p.1 p.2 }
      | none => g.received o.normal o.object := by
  unfold recordGroup
  cases groupEnd o <;> rfl

theorem groupMarks_cons (v : Event) (past : List Event) (g : UInt64) :
    groupMarks (v :: past) g = {f | f ∈ v.groupMarks g} ∪ groupMarks past g := by
  ext f
  simp [groupMarks]

theorem subgroupMarks_cons (v : Event) (past : List Event) (g s : UInt64) :
    subgroupMarks (v :: past) g s = {f | f ∈ v.subgroupMarks g s} ∪ subgroupMarks past g s := by
  ext f
  simp [subgroupMarks]

theorem Summarises.group_object (hs : e.Summarises past) (hv : o.Valid)
    (hall : ∀ b ∈ past, b.Compat (.object o)) :
    (recordGroup (e.groupOf o.group) o).toMarks.Rep (groupMarks (.object o :: past) o.group) := by
  obtain ⟨hg, -⟩ := forall_compat_object.mp hall
  have hr := hs.group o.group
  rw [recordGroup_toMarks, groupMarks_cons]
  simp only [Event.groupMarks, if_true] at hg ⊢
  cases hend : groupEnd o with
  | none =>
    convert hr.received o.normal o.object using 1
    ext f
    simp [Event.endMarks]
  | some p =>
    have hall : ∀ f ∈ groupMarks past o.group, f.Compat (.received o.normal o.object) :=
      fun f hf => hg f hf _ (by simp)
    have hend' : ∀ f ∈ groupMarks past o.group, f.Compat (.ending p.1 p.2) :=
      fun f hf => hg f hf _ (by simp [Event.endMarks, hend])
    convert hr.object_end (hs.taken.consistent_group _) (hs.taken.closed_group _)
      (setsEnd_groupEnd hv hend) hall hend' using 1
    ext f
    simp [Event.endMarks, or_assoc, or_left_comm]

theorem subgroups_recordGroup (g : DeliveredGroup) (o : ObjectInfo) (s : UInt64) :
    (recordGroup g o).subgroups.lookup s =
      if o.datagram = false ∧ s = o.subgroup then
        some (recordSubgroup (g.subgroups.lookup o.subgroup) o)
      else g.subgroups.lookup s := by
  unfold recordGroup
  cases hdg : o.datagram with
  | true => simp
  | false =>
    by_cases h : s = o.subgroup
    · subst h
      simp
    · simp [h]

theorem recordSubgroup_toMarks (sg : Option SubgroupLedger) (o : ObjectInfo) :
    (recordSubgroup sg o).toMarks = (sg.getD {}).received o.normal o.object := by
  cases sg <;> rfl

theorem Summarises.subgroup_object_mark (hs : e.Summarises past) (s : UInt64) :
    ((recordGroup (e.groupOf o.group) o).subgroupOf s).toMarks.Rep
      (subgroupMarks (.object o :: past) o.group s) := by
  have hr := hs.subgroup o.group s
  rw [DeliveredGroup.subgroupOf, subgroups_recordGroup]
  by_cases h : o.datagram = false ∧ s = o.subgroup
  · obtain ⟨hdg, rfl⟩ := h
    have hset : subgroupMarks (.object o :: past) o.group o.subgroup =
        insert (.received o.normal o.object) (subgroupMarks past o.group o.subgroup) := by
      rw [subgroupMarks_cons]
      ext f
      simp [Event.subgroupMarks, hdg]
    rw [if_pos ⟨hdg, rfl⟩, Option.getD_some, recordSubgroup_toMarks, hset]
    exact hr.received o.normal o.object
  · have hset : subgroupMarks (.object o :: past) o.group s = subgroupMarks past o.group s := by
      rw [subgroupMarks_cons]
      ext f
      simp only [Event.subgroupMarks, Set.mem_union, Set.mem_ofPred_eq]
      rw [if_neg fun ⟨_, hsub, hdg⟩ => h ⟨hdg, hsub.symm⟩]
      simp
    rw [if_neg h, hset]
    exact hr

theorem Summarises.recorded_spec (hs : e.Summarises past) (ha : Event.Adm past (.object o)) :
    (e.recorded o).WF ∧ (e.recorded o).groupGaps = [] ∧
    (e.recorded o).delivered.lookup o.group = some { recordGroup (e.groupOf o.group) o with
      objects := insert o.object (e.groupOf o.group).objects } ∧
    (∀ id, id ≠ o.group → (e.recorded o).delivered.lookup id = e.delivered.lookup id) ∧
    (e.recorded o).hasTrackEnd = (e.hasTrackEnd || o.status == objectStatusEndOfTrack) ∧
    (e.recorded o).trackEnd =
      if o.status = objectStatusEndOfTrack then o.loc else e.trackEnd := by
  obtain ⟨e₁, hopen, hwf, hlook, hne, hgaps, hte, hhas⟩ := hs.openGroup ha
  simp only [recorded, hopen]
  refine ⟨hwf.put (recordTrackEnd_delivered _ _) (recordTrackEnd_deliveredFloor _ _) hlook, ?_,
    lookup_insert _, fun id hid => ?_, ?_, ?_⟩
  · have : (e₁.recordTrackEnd o).groupGaps = e₁.groupGaps := by
      unfold recordTrackEnd
      split_ifs <;> rfl
    simp only [put, this, hgaps, hs.groupGaps]
  · simp only [put, lookup_insert_ne hid, recordTrackEnd_delivered, hne id hid]
  · simp only [put, recordTrackEnd]
    split_ifs with h <;> simp_all
  · simp only [put, recordTrackEnd]
    split_ifs <;> simp_all

theorem Summarises.object (hs : e.Summarises past) (ha : Event.Adm past (.object o))
    (hall : ∀ b ∈ past, b.Compat (.object o)) :
    (e.recorded o).Summarises (.object o :: past) := by
  obtain ⟨hwf, hgaps, hself, hne, hhas, hte⟩ := hs.recorded_spec ha
  have hgself : (e.recorded o).groupOf o.group = { recordGroup (e.groupOf o.group) o with
      objects := insert o.object (e.groupOf o.group).objects } := by
    rw [groupOf, hself, Option.getD_some]
  have hgne : ∀ id, id ≠ o.group → (e.recorded o).groupOf id = e.groupOf id := by
    intro id hid
    rw [groupOf, hne id hid, groupOf]
  refine ⟨hs.taken.cons ha hall, hwf, hgaps, ?_, ?_, ?_, ?_, ?_, ?_, ?_, ?_⟩
  · intro id g hg
    by_cases hid : id = o.group
    · subst hid
      rw [hself] at hg
      cases hg
      cases hold : e.delivered.lookup o.group with
      | none => simp [recordGroup, groupOf, hold]
      | some g₀ => simpa [recordGroup, groupOf, hold] using hs.clean _ g₀ hold
    · rw [hne id hid] at hg
      exact hs.clean id g hg
  · intro id
    by_cases hid : id = o.group
    · subst hid
      simp only [hself, Option.isSome_some, true_iff]
      exact ⟨o, mem_cons_self, rfl⟩
    · rw [hne id hid, hs.held]
      constructor
      · rintro ⟨a, ha, hg⟩
        exact ⟨a, mem_cons_of_mem _ ha, hg⟩
      · rintro ⟨a, ha, hg⟩
        rcases mem_cons.mp ha with h | h
        · cases h
          exact absurd hg.symm hid
        · exact ⟨a, h, hg⟩
  · intro id
    by_cases hid : id = o.group
    · subst hid
      rw [hgself]
      exact hs.group_object ha.2.2 hall
    · rw [hgne id hid, groupMarks_cons]
      simpa [Event.groupMarks, Ne.symm hid] using hs.group id
  · intro id s
    by_cases hid : id = o.group
    · subst hid
      rw [hgself]
      exact hs.subgroup_object_mark s
    · rw [hgne id hid, subgroupMarks_cons]
      simpa [Event.subgroupMarks, Ne.symm hid] using hs.subgroup id s
  · intro a ha' hdg
    by_cases hid : a.group = o.group
    · rw [hid, hgself]
      simp only [subgroups_recordGroup]
      by_cases hsub : o.datagram = false ∧ a.subgroup = o.subgroup
      · rw [if_pos hsub]
        refine ⟨_, rfl, ?_⟩
        -- the Subgroup's priority was set by its first Object, and `o`, `a` agree with it
        have hprio : ∀ b, .object b ∈ past → b.datagram = false → b.group = o.group →
            b.subgroup = o.subgroup → b.priority = o.priority :=
          fun b hb hbdg hbg hbs => (hall _ hb).priority hbdg hsub.1 hbg hbs
        have hao : a.priority = o.priority := by
          rcases mem_cons.mp ha' with h | h
          · cases h
            rfl
          · exact hprio a h hdg hid hsub.2
        cases hsg : (e.groupOf o.group).subgroups.lookup o.subgroup with
        | none => exact hao.symm
        | some sg =>
          obtain ⟨b, hb, hbdg, hbg, hbs⟩ := hs.subgroup_object _ _ sg hsg
          obtain ⟨sg', hsg', hp⟩ := hs.priority b hb hbdg
          rw [hbg, hbs, hsg] at hsg'
          cases hsg'
          exact hp.trans ((hprio b hb hbdg hbg hbs).trans hao.symm)
      · rw [if_neg hsub]
        rcases mem_cons.mp ha' with h | h
        · cases h
          exact absurd ⟨hdg, rfl⟩ hsub
        · rw [← hid]
          exact hs.priority a h hdg
    · rw [hgne _ hid]
      rcases mem_cons.mp ha' with h | h
      · cases h
        exact absurd rfl hid
      · exact hs.priority a h hdg
  · intro id s sg hsg
    have hold : (∃ sg, (e.groupOf id).subgroups.lookup s = some sg) →
        ∃ a, .object a ∈ .object o :: past ∧ a.datagram = false ∧ a.group = id ∧
          a.subgroup = s := by
      rintro ⟨sg, h⟩
      obtain ⟨a, ha, h⟩ := hs.subgroup_object id s sg h
      exact ⟨a, mem_cons_of_mem _ ha, h⟩
    by_cases hid : id = o.group
    · subst hid
      rw [hgself] at hsg
      simp only [subgroups_recordGroup] at hsg
      split_ifs at hsg with h
      · exact ⟨o, mem_cons_self, h.1, rfl, h.2.symm⟩
      · exact hold ⟨sg, hsg⟩
    · rw [hgne id hid] at hsg
      exact hold ⟨sg, hsg⟩
  · rw [hhas, Bool.or_eq_true, hs.trackEnd, beq_iff_eq]
    constructor
    · rintro (⟨a, ha, h⟩ | h)
      · exact ⟨a, mem_cons_of_mem _ ha, h⟩
      · exact ⟨o, mem_cons_self, h⟩
    · rintro ⟨a, ha, h⟩
      rcases mem_cons.mp ha with h' | h'
      · cases h'
        exact .inr h
      · exact .inl ⟨a, h', h⟩
  · intro a ha' hst
    rw [hte]
    rcases mem_cons.mp ha' with h | h
    · cases h
      rw [if_pos hst]
    · split_ifs with ho
      · -- two ends of the Track are at one place
        rw [← Location.rank_inj]
        exact le_antisymm ((hall _ h).track.1 hst) ((hall _ h).track.2 ho)
      · exact hs.trackEnd_loc a h hst

end Object

/-! ### The end of a stream -/

section Ended

variable {e : Ledger} {past : List Event} {last : ObjectInfo} {eog : Bool} {p : UInt64 × Bool}

/-- A stream that ended had its last Object taken, so its Group is held. -/
theorem Summarises.held_last (hs : e.Summarises past) (ha : Event.Adm past (.ended last eog)) :
    e.delivered.lookup last.group = some (e.groupOf last.group) := by
  obtain ⟨o, ho, hlast⟩ := ha.2
  obtain ⟨g, hg⟩ := Option.isSome_iff_exists.mp ((hs.held last.group).mpr ⟨o, ho, hlast.group⟩)
  simp [groupOf, hg]

theorem Summarises.take_ended (hs : e.Summarises past) (ha : Event.Adm past (.ended last eog)) :
    e.take (.ended last eog) = match finEnd last with
      | none => some e
      | some p =>
        if checkFin (e.groupOf last.group) last eog p.1 p.2 = none then
          some (e.put last.group (recordFin (e.groupOf last.group) last eog p.1 p.2))
        else none := by
  simp only [take, subgroupEnded, hs.held_last ha]
  cases finEnd last with
  | none => rfl
  | some p =>
    simp only
    cases checkFin (e.groupOf last.group) last eog p.1 p.2 with
    | none => rfl
    | some err => rfl

theorem checkFin_eq_none {g : DeliveredGroup} {atID : UInt64} {hard : Bool} :
    checkFin g last eog atID hard = none ↔
      ((g.subgroupOf last.subgroup).ending.conflicts atID hard = false ∧
        (g.subgroupOf last.subgroup).pastEnd
          ((g.subgroupOf last.subgroup).ending.withEnd atID hard) = false) ∧
      (eog = true → g.ending.conflicts atID hard = false ∧
        g.pastEnd (g.ending.withEnd atID hard) = false) := by
  have hmarks : ((g.subgroups.lookup last.subgroup).getD { priority := last.priority }).toMarks =
      (g.subgroupOf last.subgroup).toMarks := by
    unfold DeliveredGroup.subgroupOf
    cases g.subgroups.lookup last.subgroup <;> rfl
  rw [checkFin, Option.or_eq_none_iff]
  refine and_congr ?_ ?_
  · simp only [checkSubgroupEnd, hmarks]
    split_ifs with h₁ h₂ <;> simp [h₁] <;> simpa using h₂
  · cases eog with
    | false => simp
    | true =>
      simp only [if_true, checkGroupEnd, forall_const]
      split_ifs with h₁ h₂ <;> simp [h₁] <;> simpa using h₂

theorem forall_compat_ended : (∀ b ∈ past, b.Compat (.ended last eog)) ↔
    ∀ f' ∈ Event.endMarks (finEnd last),
      (∀ f ∈ subgroupMarks past last.group last.subgroup, f.Compat f') ∧
        (eog = true → ∀ f ∈ groupMarks past last.group, f.Compat f') := by
  constructor
  · intro hall f' hf'
    refine ⟨?_, ?_⟩
    · rintro f ⟨b, hb, hf⟩
      exact (hall b hb).subgroup _ _ f hf f' (by simpa [Event.subgroupMarks] using hf')
    · rintro heog f ⟨b, hb, hf⟩
      exact (hall b hb).group _ f hf f' (by simpa [Event.groupMarks, heog] using hf')
  · intro hall b hb
    refine ⟨fun g f hf f' hf' => ?_, fun g s f hf f' hf' => ?_, ?_, ?_⟩
    · obtain ⟨⟨rfl, heog⟩, hend⟩ := Event.mem_groupMarks_ended.mp hf'
      exact (hall f' hend).2 heog f ⟨b, hb, hf⟩
    · obtain ⟨⟨rfl, rfl⟩, hend⟩ := Event.mem_subgroupMarks_ended.mp hf'
      exact (hall f' hend).1 f ⟨b, hb, hf⟩
    · cases b <;> trivial
    · cases b <;> trivial

theorem Summarises.closed_ended (hs : e.Summarises past) (ha : Event.Adm past (.ended last eog))
    (hfin : finEnd last = some p) : Closed (insert (.ending p.1 p.2) (groupMarks past last.group)) ∧
      Closed (insert (.ending p.1 p.2) (subgroupMarks past last.group last.subgroup)) := by
  obtain ⟨o, ho, hlast⟩ := ha.2
  have hown := setsEnd_finEnd hfin
  refine ⟨(hs.taken.closed_group _).ending hown ?_, (hs.taken.closed_subgroup _ _).ending hown ?_⟩
  · exact received_mem_groupMarks.mpr
      ⟨o, ho, hlast.group, hlast.object, by simp [ObjectInfo.normal, hlast.status]⟩
  · refine ⟨_, ho, ?_⟩
    simp [Event.subgroupMarks, hlast.group, hlast.subgroup, hlast.datagram, hlast.object,
      ObjectInfo.normal, hlast.status]

/-- **The end of a stream is refused exactly when it is incompatible with an event taken
    before.** -/
theorem Summarises.checkFin_iff (hs : e.Summarises past) (ha : Event.Adm past (.ended last eog))
    (hfin : finEnd last = some p) : checkFin (e.groupOf last.group) last eog p.1 p.2 = none ↔
      ∀ b ∈ past, b.Compat (.ended last eog) := by
  obtain ⟨hcg, hcs⟩ := hs.closed_ended ha hfin
  rw [forall_compat_ended, checkFin_eq_none,
    (hs.subgroup _ _).end_iff (hs.taken.consistent_subgroup _ _) (hs.taken.closed_subgroup _ _) hcs,
    (hs.group _).end_iff (hs.taken.consistent_group _) (hs.taken.closed_group _) hcg]
  simp [Event.endMarks, hfin]

theorem forall_compat_of_finEnd_none (hfin : finEnd last = none) :
    ∀ b ∈ past, b.Compat (.ended last eog) := by
  rw [forall_compat_ended]
  simp [Event.endMarks, hfin]

theorem subgroupOf_recordFin (g : DeliveredGroup) (last : ObjectInfo) (eog : Bool) (atID : UInt64)
    (hard : Bool) (s : UInt64) :
    ((recordFin g last eog atID hard).subgroupOf s).toMarks =
      if s = last.subgroup then
        { (g.subgroupOf s).toMarks with ending := (g.subgroupOf s).ending.withEnd atID hard }
      else (g.subgroupOf s).toMarks := by
  by_cases h : s = last.subgroup
  · subst h
    simp only [recordFin, DeliveredGroup.subgroupOf, lookup_insert, Option.getD_some, if_true]
    cases g.subgroups.lookup last.subgroup <;> rfl
  · simp only [recordFin, DeliveredGroup.subgroupOf, lookup_insert_ne h, if_neg h]

theorem Summarises.ended (hs : e.Summarises past) (ha : Event.Adm past (.ended last eog))
    (hfin : finEnd last = some p) (hall : ∀ b ∈ past, b.Compat (.ended last eog)) :
    (e.put last.group (recordFin (e.groupOf last.group) last eog p.1 p.2)).Summarises
      (.ended last eog :: past) := by
  have hheld := hs.held_last ha
  obtain ⟨hcg, hcs⟩ := hs.closed_ended ha hfin
  obtain ⟨o, ho, hlast⟩ := ha.2
  have hcompat := forall_compat_ended.mp hall (.ending p.1 p.2) (by simp [Event.endMarks, hfin])
  set e' := e.put last.group (recordFin (e.groupOf last.group) last eog p.1 p.2) with he'
  have hself : e'.delivered.lookup last.group =
      some (recordFin (e.groupOf last.group) last eog p.1 p.2) := lookup_insert _
  have hne : ∀ id, id ≠ last.group → e'.delivered.lookup id = e.delivered.lookup id :=
    fun id hid => lookup_insert_ne hid
  have hgself : e'.groupOf last.group = recordFin (e.groupOf last.group) last eog p.1 p.2 := by
    rw [groupOf, hself, Option.getD_some]
  have hgne : ∀ id, id ≠ last.group → e'.groupOf id = e.groupOf id := by
    intro id hid
    rw [groupOf, hne id hid, groupOf]
  have hobj : ∀ a, .object a ∈ .ended last eog :: past ↔ .object a ∈ past := by simp
  refine ⟨hs.taken.cons ha hall, hs.wf.put rfl rfl hheld, hs.groupGaps, ?_, ?_, ?_, ?_, ?_, ?_,
    ?_, ?_⟩
  · intro id g hg
    by_cases hid : id = last.group
    · subst hid
      rw [hself] at hg
      cases hg
      exact hs.clean last.group (e.groupOf last.group) hheld
    · rw [hne id hid] at hg
      exact hs.clean id g hg
  · intro id
    simp only [hobj]
    by_cases hid : id = last.group
    · subst hid
      simp only [hself, Option.isSome_some, true_iff]
      exact ⟨o, ho, hlast.group⟩
    · rw [hne id hid, hs.held]
  · intro id
    have hr := hs.group id
    by_cases hid : id = last.group
    · subst hid
      rw [hgself, groupMarks_cons]
      cases eog with
      | false => simpa [Event.groupMarks, recordFin] using hr
      | true =>
        have hset : {f | f ∈ Event.groupMarks last.group (.ended last true)} ∪
            groupMarks past last.group =
              insert (.ending p.1 p.2) (groupMarks past last.group) := by
          ext f
          simp [Event.groupMarks, Event.endMarks, hfin]
        rw [hset]
        exact hr.withEnd (hs.taken.consistent_group _) (hs.taken.closed_group _) hcg
          (hcompat.2 rfl)
    · rw [hgne id hid, groupMarks_cons]
      simpa [Event.groupMarks, Ne.symm hid] using hr
  · intro id s
    have hr := hs.subgroup id s
    by_cases hid : id = last.group
    · subst hid
      rw [hgself, subgroupOf_recordFin, subgroupMarks_cons]
      split_ifs with hsub
      · subst hsub
        have hset : {f | f ∈ Event.subgroupMarks last.group last.subgroup (.ended last eog)} ∪
            subgroupMarks past last.group last.subgroup =
              insert (.ending p.1 p.2) (subgroupMarks past last.group last.subgroup) := by
          ext f
          simp [Event.subgroupMarks, Event.endMarks, hfin]
        rw [hset]
        exact hr.withEnd (hs.taken.consistent_subgroup _ _) (hs.taken.closed_subgroup _ _) hcs
          hcompat.1
      · simpa [Event.subgroupMarks, Ne.symm hsub] using hr
    · rw [hgne id hid, subgroupMarks_cons]
      simpa [Event.subgroupMarks, Ne.symm hid] using hr
  · intro a ha' hdg
    rw [hobj] at ha'
    obtain ⟨sg, hsg, hp⟩ := hs.priority a ha' hdg
    by_cases hid : a.group = last.group
    · rw [hid] at hsg ⊢
      rw [hgself]
      by_cases hsub : a.subgroup = last.subgroup
      · rw [hsub] at hsg ⊢
        refine ⟨_, lookup_insert _, ?_⟩
        simpa [hsg] using hp
      · refine ⟨sg, ?_, hp⟩
        simpa [recordFin, hsub] using hsg
    · rw [hgne _ hid]
      exact ⟨sg, hsg, hp⟩
  · intro id s sg hsg
    simp only [hobj]
    by_cases hid : id = last.group
    · subst hid
      rw [hgself] at hsg
      by_cases hsub : s = last.subgroup
      · exact ⟨o, ho, hlast.datagram, hlast.group, hsub ▸ hlast.subgroup⟩
      · refine hs.subgroup_object _ s sg ?_
        simpa [recordFin, hsub] using hsg
    · rw [hgne id hid] at hsg
      exact hs.subgroup_object id s sg hsg
  · simp only [hobj]
    exact hs.trackEnd
  · intro a ha' hst
    rw [hobj] at ha'
    exact hs.trackEnd_loc a ha' hst

theorem Summarises.ended_none (hs : e.Summarises past) (ha : Event.Adm past (.ended last eog))
    (hfin : finEnd last = none) : e.Summarises (.ended last eog :: past) := by
  have hobj : ∀ a, .object a ∈ .ended last eog :: past ↔ .object a ∈ past := by simp
  refine ⟨hs.taken.cons ha (forall_compat_of_finEnd_none hfin), hs.wf, hs.groupGaps, hs.clean,
    ?_, ?_, ?_, ?_, ?_, ?_, ?_⟩
  · simpa only [hobj] using hs.held
  · intro id
    rw [groupMarks_cons]
    simpa [Event.groupMarks, Event.endMarks, hfin] using hs.group id
  · intro id s
    rw [subgroupMarks_cons]
    simpa [Event.subgroupMarks, Event.endMarks, hfin] using hs.subgroup id s
  · simpa only [hobj] using hs.priority
  · simpa only [hobj] using hs.subgroup_object
  · simpa only [hobj] using hs.trackEnd
  · simpa only [hobj] using hs.trackEnd_loc

end Ended

/-! ## Runs of events -/

/-- **The ledger is a consistency checker**: it refuses an event exactly when it is incompatible
    with one it took. -/
theorem ledger_checks : Lib.Checks take Summarises Event.Adm Event.Compat where
  accepts := by
    intro e past v hs ha
    cases v with
    | object o =>
      rw [hs.take_object ha, ← hs.checkEnds_iff ha.2.2]
      split_ifs with h <;> simp [h]
    | ended last eog =>
      rw [hs.take_ended ha]
      cases hfin : finEnd last with
      | none => simpa using forall_compat_of_finEnd_none hfin
      | some p =>
        simp only [← hs.checkFin_iff ha hfin]
        split_ifs with h <;> simp [h]
  rep := by
    intro e past v e' hs ha h
    cases v with
    | object o =>
      rw [hs.take_object ha] at h
      split_ifs at h with hchk
      cases h
      exact hs.object ha ((hs.checkEnds_iff ha.2.2).mp hchk)
    | ended last eog =>
      rw [hs.take_ended ha] at h
      cases hfin : finEnd last with
      | none =>
        rw [hfin] at h
        cases h
        exact hs.ended_none ha hfin
      | some p =>
        simp only [hfin] at h
        split_ifs at h with hchk
        cases h
        exact hs.ended ha hfin ((hs.checkFin_iff ha hfin).mp hchk)

end Ledger

namespace TrackEntry

variable {S : Type}

theorem event_take (e : TrackEntry S) (now : Nat) (v : Event) :
    e.ledger.take v =
      if (e.event now v).2 = none then some (e.event now v).1.ledger else none := by
  cases v with
  | object o =>
    simp only [Ledger.take, event]
    rcases hc : e.ledger.claimDelivered o with ⟨e', claim, err⟩
    have hreply : (e.call now (.claimDelivered o)).2 = ⟨some claim, err⟩ := by
      simp [Ledger.call, hc]
    have hled : (e.ledger.call (.claimDelivered o)).1 = e' := by
      simp [Ledger.call, hc]
    simp only [hreply]
    cases err with
    | some err => simp
    | none =>
      cases claim with
      | fresh | agedOut => simp [hled]
      | redundant =>
        simp only [and_self, if_true, call_reply, call_ledger, hled]
        rcases hd : e'.recordDuplicate o with ⟨e'', err⟩
        have hcall : e'.call (.recordDuplicate o) = (e'', ⟨none, err⟩) := by
          simp [Ledger.call, hd]
        cases err <;> simp [hcall]
  | ended last eog =>
    simp only [Ledger.take, event, call_reply, call_ledger]
    rcases hd : e.ledger.subgroupEnded last eog with ⟨e', err⟩
    cases err <;> simp [Ledger.call, hd]

theorem malformed_iff (vs : List (Nat × Event)) : ∀ e : TrackEntry S,
    e.malformed vs = !(Lib.run Ledger.take e.ledger (vs.map Prod.snd)).isSome := by
  induction vs with
  | nil => intro e; rfl
  | cons p vs ih =>
    obtain ⟨now, v⟩ := p
    intro e
    simp only [malformed, map_cons, Lib.run, event_take e now v, ih]
    cases (e.event now v).2 <;> simp

end TrackEntry

/-! ## The orders a network can produce -/

/-- Every stream's end comes after an Object event for its last Object. -/
def Placed (vs : List Event) : Prop :=
  ∀ (i : Nat) (last : ObjectInfo) (eog : Bool), vs[i]? = some (.ended last eog) →
    ∃ (j : Nat) (o : ObjectInfo), j < i ∧ vs[j]? = some (.object o) ∧ o.IsLast last

theorem admissible_of_placed {vs : List Event} (hplaced : Placed vs)
    (hcard : (groupsOf vs).card ≤ deliveredGroupWindow)
    (hgaps : ∀ o, .object o ∈ vs → o.NoGaps) (hvalid : ∀ o, .object o ∈ vs → o.Valid) :
    Lib.Admissible Event.Adm [] vs := by
  -- by induction on what is left, the past being what was taken so far, reversed
  suffices h : ∀ (rest past : List Event), past.reverse ++ rest = vs →
      Lib.Admissible Event.Adm past rest from h vs [] rfl
  intro rest
  induction rest with
  | nil => intro _ _; trivial
  | cons v rest ih =>
    intro past hvs
    refine ⟨⟨?_, ?_⟩, ih (v :: past) (by simpa using hvs)⟩
    · refine le_trans (Finset.card_le_card ?_) hcard
      intro g hg
      simp only [groupsOf, mem_toFinset, mem_map, mem_cons] at hg ⊢
      obtain ⟨a, ha, rfl⟩ := hg
      refine ⟨a, ?_, rfl⟩
      rw [← hvs]
      rcases ha with rfl | ha
      · simp
      · simp [ha]
    · cases v with
      | object o =>
        have ho : .object o ∈ vs := by simp [← hvs]
        exact ⟨hgaps o ho, hvalid o ho⟩
      | ended last eog =>
        obtain ⟨j, o, hj, hget, hlast⟩ := hplaced past.length last eog (by simp [← hvs])
        refine ⟨o, ?_, hlast⟩
        rw [← hvs, List.getElem?_append_left (by simpa using hj)] at hget
        exact mem_reverse.mp (mem_of_getElem? hget)

/-- **Order independence of the malformed-track verdict.** Over two orders of the same events, at
    any times, that carry no Prior Gaps, touch no more Groups than the window holds and keep
    each stream's end after its last Object, a new entry finds the track malformed in the one
    if and only if it does in the other. -/
theorem malformed_order_independent {S : Type} (cache cache' : ObjectCache)
    {vs vs' : List (Nat × Event)} (hperm : (vs.map Prod.snd).Perm (vs'.map Prod.snd))
    (hplaced : Placed (vs.map Prod.snd)) (hplaced' : Placed (vs'.map Prod.snd))
    (hcard : (groupsOf (vs.map Prod.snd)).card ≤ deliveredGroupWindow)
    (hgaps : ∀ o, .object o ∈ vs.map Prod.snd → o.NoGaps)
    (hvalid : ∀ o, .object o ∈ vs.map Prod.snd → o.Valid) :
    ({ cache := cache } : TrackEntry S).malformed vs =
      ({ cache := cache' } : TrackEntry S).malformed vs' := by
  have hcard' : (groupsOf (vs'.map Prod.snd)).card ≤ deliveredGroupWindow := by
    rwa [groupsOf, ← toFinset_eq_of_perm _ _ (hperm.map Event.group)]
  have ha := admissible_of_placed hplaced hcard hgaps hvalid
  have ha' := admissible_of_placed hplaced' hcard' (fun o ho => hgaps o (hperm.mem_iff.mpr ho))
    fun o ho => hvalid o (hperm.mem_iff.mpr ho)
  have hiff := Ledger.ledger_checks.run_isSome_perm (fun _ _ h => h.symm) Ledger.Summarises.new
    hperm ha ha'
  rw [TrackEntry.malformed_iff, TrackEntry.malformed_iff, Bool.not_inj_iff, Bool.eq_iff_iff]
  exact hiff

/-- Object 0 of Group 7, a FIN after it that ends the Group, and Object 1: whichever of the last
    two comes last is the one refused. -/
theorem malformed_order_independent_fin :
    let o : ObjectInfo := { group := 7, object := 0 }
    let vs : List (Nat × Event) :=
      [(0, .object o), (1, .ended o true), (2, .object { group := 7, object := 1 })]
    let vs' : List (Nat × Event) :=
      [(0, .object o), (1, .object { group := 7, object := 1 }), (2, .ended o true)]
    ({ cache := .new 1 0 } : TrackEntry Unit).malformed vs = true ∧
      ({ cache := .new 1 0 } : TrackEntry Unit).malformed vs =
        ({ cache := .new 1 0 } : TrackEntry Unit).malformed vs' := by
  intro o vs vs'
  have hlast : o.IsLast o := ⟨rfl, rfl, rfl, rfl, rfl, rfl⟩
  refine ⟨by decide, malformed_order_independent _ _ (.cons _ (.swap _ _ _)) ?_ ?_
    (by decide) ?_ ?_⟩
  · intro i last eog h
    match i with
    | 0 | 2 | n + 3 => simp [vs] at h
    | 1 =>
      simp only [vs, map_cons, List.getElem?_cons_succ, List.getElem?_cons_zero,
        Option.some.injEq, Event.ended.injEq] at h
      exact ⟨0, o, Nat.one_pos, rfl, h.1 ▸ hlast⟩
  · intro i last eog h
    match i with
    | 0 | 1 | n + 3 => simp [vs'] at h
    | 2 =>
      simp only [vs', map_cons, List.getElem?_cons_succ, List.getElem?_cons_zero,
        Option.some.injEq, Event.ended.injEq] at h
      exact ⟨0, o, Nat.two_pos, rfl, h.1 ▸ hlast⟩
  · simp [vs, o, ObjectInfo.NoGaps]
  · simp [vs, o, ObjectInfo.Valid]

end MoqGo.Relay
