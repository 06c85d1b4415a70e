import MoqGo.Lib.Runs
import MoqGo.Relay.TrackEntry

/-!
# The dedup window: what the ledger forgets, it never takes back

The ledger holds `deliveredGroupWindow` Groups and forgets the lowest when one more arrives.
Deduplication survives because a forgotten Group stays *aged out*: once the window is full it
stays full and its floor only rises, so a Group below the floor never gets in again.

`WF` is the shape of the window in every reachable state. `Evolves` is the one fact about a
call everything else here and in the fan-out is derived from: an aged-out Group stays aged
out, and a held one is aged out or has grown. It is a preorder, and `call_evolves` proves it
once for all three operations.
-/

namespace MoqGo.Relay

open Message List AList

/-! ## The lowest of the keys -/

theorem foldl_min_le (ids : List UInt64) (top : UInt64) :
    ids.foldl min top ≤ top ∧ ∀ id ∈ ids, ids.foldl min top ≤ id := by
  induction ids generalizing top with
  | nil => simp
  | cons a ids ih =>
    have h := ih (min top a)
    simp only [foldl_cons, mem_cons, forall_eq_or_imp]
    refine ⟨?_, ?_, h.2⟩ <;> grind

theorem foldl_min_mem (ids : List UInt64) (top : UInt64) :
    ids.foldl min top = top ∨ ids.foldl min top ∈ ids := by
  induction ids generalizing top with
  | nil => simp
  | cons a ids ih =>
    grind

theorem foldl_min_maxUint64_mem {ids : List UInt64} (h : ids ≠ []) :
    ids.foldl min maxUint64 ∈ ids := by
  rcases foldl_min_mem ids maxUint64 with htop | hmem
  · -- The scan's start value is an ID as well: nothing lower, so every key is it.
    obtain ⟨id, hid⟩ := exists_mem_of_ne_nil ids h
    have hle := (foldl_min_le ids maxUint64).2 id hid
    have : id = maxUint64 := by
      rw [htop] at hle
      have := id.toNat_lt
      rw [UInt64.le_iff_toNat_le, maxUint64_toNat] at hle
      apply UInt64.toNat_inj.mp
      rw [maxUint64_toNat]
      omega
    rw [htop, ← this]
    exact hid
  · exact hmem

/-! ## How a Group's entry changes -/

/-- `b` ends no later than `a` did, and a hard end is still hard unless it moved. -/
def End.Lowers (a b : End) : Prop :=
  a.set = true → b.set = true ∧ (b.atID < a.atID ∨ b.atID = a.atID ∧
    (a.hard = true → b.hard = true))

theorem End.Lowers.refl (a : End) : a.Lowers a := fun h => ⟨h, .inr ⟨rfl, id⟩⟩

theorem End.Lowers.trans {a b c : End} (hab : a.Lowers b) (hbc : b.Lowers c) : a.Lowers c := by
  intro ha
  obtain ⟨hb, hab⟩ := hab ha
  obtain ⟨hc, hbc⟩ := hbc hb
  refine ⟨hc, ?_⟩
  grind

theorem End.lowers_withEnd (a : End) (atID : UInt64) (hard : Bool) :
    a.Lowers (a.withEnd atID hard) := by
  intro ha
  unfold End.withEnd
  split_ifs <;> grind

/-- Nothing recorded about a Group is lost but a later end, for a lower one. -/
structure DeliveredGroup.Grows (g g' : DeliveredGroup) : Prop where
  objects : g.objects ⊆ g'.objects
  objectGaps : g.objectGaps ⊆ g'.objectGaps
  ending : g.ending.Lowers g'.ending

namespace DeliveredGroup.Grows

theorem refl (g : DeliveredGroup) : g.Grows g := ⟨Finset.Subset.refl _, fun _ h => h, .refl _⟩

theorem trans {a b c : DeliveredGroup} (hab : a.Grows b) (hbc : b.Grows c) : a.Grows c :=
  ⟨fun _ h => hbc.objects (hab.objects h), fun _ h => hbc.objectGaps (hab.objectGaps h),
    hab.ending.trans hbc.ending⟩

end DeliveredGroup.Grows

namespace Ledger

theorem grows_recordObjectGap (g : DeliveredGroup) (object : UInt64) (gaps : PriorGaps) :
    g.Grows (recordObjectGap g object gaps) := by
  unfold recordObjectGap
  split
  · split_ifs
    · exact ⟨Finset.Subset.refl _, subset_append_left _ _, .refl _⟩
    · exact .refl g
  · exact .refl g

theorem grows_recordGroup (g : DeliveredGroup) (o : ObjectInfo) : g.Grows (recordGroup g o) := by
  refine ⟨Finset.Subset.refl _, fun _ h => h, ?_⟩
  have hrec : (g.received o.normal o.object).ending = g.ending := by
    unfold Marks.received
    split_ifs <;> rfl
  unfold recordGroup
  cases groupEnd o with
  | none => exact hrec ▸ .refl _
  | some p => exact hrec ▸ End.lowers_withEnd _ _ _

@[simp] theorem recordGroup_objects (g : DeliveredGroup) (o : ObjectInfo) :
    (recordGroup g o).objects = g.objects := rfl

@[simp] theorem recordObjectGap_objects (g : DeliveredGroup) (object : UInt64) (gaps : PriorGaps) :
    (recordObjectGap g object gaps).objects = g.objects := by
  unfold recordObjectGap
  split
  · split_ifs <;> rfl
  · rfl

theorem recordGaps_spec {e e' : Ledger} {g g' : DeliveredGroup} {group object : UInt64}
    {gaps : PriorGaps} (h : e.recordGaps g group object gaps = (e', g')) :
    e'.delivered = e.delivered ∧ e'.deliveredFloor = e.deliveredFloor ∧ g.Grows g' ∧
      g'.objects = g.objects := by
  have hgrow := grows_recordObjectGap g object gaps
  unfold recordGaps at h
  simp only at h
  split_ifs at h
  · split at h <;> cases h <;>
      exact ⟨rfl, rfl, ⟨hgrow.objects, hgrow.objectGaps, hgrow.ending⟩, recordObjectGap_objects ..⟩
  · cases h
    exact ⟨rfl, rfl, hgrow, recordObjectGap_objects ..⟩

@[simp] theorem recordTrackEnd_delivered (e : Ledger) (o : ObjectInfo) :
    (e.recordTrackEnd o).delivered = e.delivered := by
  unfold recordTrackEnd
  split_ifs <;> rfl

@[simp] theorem recordTrackEnd_deliveredFloor (e : Ledger) (o : ObjectInfo) :
    (e.recordTrackEnd o).deliveredFloor = e.deliveredFloor := by
  unfold recordTrackEnd
  split_ifs <;> rfl

/-! ## The window -/

/-- The window's shape: at most `deliveredGroupWindow` Groups, `deliveredFloor` the lowest. -/
structure WF (e : Ledger) : Prop where
  size : e.delivered.keys.length ≤ deliveredGroupWindow
  floor_mem : e.delivered.keys ≠ [] → e.deliveredFloor ∈ e.delivered.keys
  floor_le : ∀ id ∈ e.delivered.keys, e.deliveredFloor ≤ id

theorem WF.new : WF {} := ⟨by simp [deliveredGroupWindow], by simp, by simp⟩

theorem agesOut_iff {e : Ledger} {group : UInt64} :
    e.agesOut group = true ↔ group ∉ e.delivered.keys ∧
      deliveredGroupWindow ≤ e.delivered.keys.length ∧ group < e.deliveredFloor := by
  simp only [agesOut, Bool.and_eq_true, decide_eq_true_eq, Option.isNone_iff_eq_none,
    AList.lookup_eq_none, ← AList.mem_keys, and_assoc]

/-- The window only moves up, and what it holds only grows. -/
structure Evolves (e e' : Ledger) : Prop where
  aged : ∀ id, e.agesOut id = true → e'.agesOut id = true
  held : ∀ id g, e.delivered.lookup id = some g →
    e'.agesOut id = true ∨ ∃ g', e'.delivered.lookup id = some g' ∧ g.Grows g'

namespace Evolves

theorem refl (e : Ledger) : e.Evolves e := ⟨fun _ h => h, fun _ g h => .inr ⟨g, h, .refl g⟩⟩

theorem trans {a b c : Ledger} (hab : a.Evolves b) (hbc : b.Evolves c) : a.Evolves c := by
  refine ⟨fun id h => hbc.aged id (hab.aged id h), fun id g hg => ?_⟩
  rcases hab.held id g hg with h | ⟨g', hg', hgrow⟩
  · exact .inl (hbc.aged id h)
  · rcases hbc.held id g' hg' with h | ⟨g'', hg'', hgrow'⟩
    · exact .inl h
    · exact .inr ⟨g'', hg'', hgrow.trans hgrow'⟩

end Evolves

theorem mem_keys_of_lookup {e : Ledger} {id : UInt64} {g : DeliveredGroup}
    (h : e.delivered.lookup id = some g) : id ∈ e.delivered.keys := by
  rw [← AList.mem_keys, ← AList.lookup_isSome, h]
  rfl

theorem length_keys_insert {m : GoMap UInt64 DeliveredGroup} {id : UInt64} {g : DeliveredGroup}
    (h : id ∈ m.keys) : (m.insert id g).keys.length = m.keys.length := by
  rw [keys_insert, length_cons, length_erase_of_mem h]
  have := length_pos_of_mem h
  omega

/-! ## Writing a Group's entry back -/

section Put

variable {e e₁ : Ledger} {group : UInt64} {g g' : DeliveredGroup}
  (hwin : e₁.delivered = e.delivered) (hfloor : e₁.deliveredFloor = e.deliveredFloor)
  (hg : e.delivered.lookup group = some g)

include hwin hg

theorem mem_keys_put {id : UInt64} :
    id ∈ (e₁.put group g').delivered.keys ↔ id ∈ e.delivered.keys := by
  simp only [put, ← AList.mem_keys, AList.mem_insert, hwin]
  constructor
  · rintro (rfl | h)
    · exact mem_keys.mpr (mem_keys_of_lookup hg)
    · exact h
  · exact .inr

include hfloor

/-- The keys do not change, so neither does what is aged out. -/
theorem agesOut_put {id : UInt64} : (e₁.put group g').agesOut id = e.agesOut id := by
  have hlen : (e₁.put group g').delivered.keys.length = e.delivered.keys.length := by
    have := mem_keys_of_lookup hg
    rw [← hwin] at this ⊢
    exact length_keys_insert this
  have hf : (e₁.put group g').deliveredFloor = e.deliveredFloor := hfloor
  rw [Bool.eq_iff_iff, agesOut_iff, agesOut_iff, mem_keys_put hwin hg, hlen, hf]

theorem evolves_put (hgrow : g.Grows g') : e.Evolves (e₁.put group g') := by
  refine ⟨fun id h => (agesOut_put hwin hfloor hg).trans h, fun id gid hid => .inr ?_⟩
  by_cases h : id = group
  · subst h
    rw [hg] at hid
    cases hid
    exact ⟨g', lookup_insert _, hgrow⟩
  · refine ⟨gid, ?_, .refl gid⟩
    rw [← hid, ← hwin]
    exact lookup_insert_ne h

theorem WF.put (hwf : WF e) : WF (e₁.put group g') := by
  have hmem := mem_keys_of_lookup hg
  refine ⟨?_, fun _ => ?_, fun id hid => ?_⟩
  · have hlen : (e₁.put group g').delivered.keys.length = e.delivered.keys.length := by
      rw [← hwin] at hmem ⊢
      exact length_keys_insert hmem
    exact hlen ▸ hwf.size
  · rw [mem_keys_put hwin hg]
    exact hfloor ▸ hwf.floor_mem (ne_nil_of_mem hmem)
  · rw [mem_keys_put hwin hg] at hid
    exact hfloor ▸ hwf.floor_le id hid

end Put

/-! ## Opening a Group -/

/-- The scan after the drop finds a floor that is strictly higher: IDs are keys, each there once. -/
theorem pruneLowest_spec {e : Ledger} (hwf : WF e)
    (hfull : deliveredGroupWindow ≤ e.delivered.keys.length) :
    WF e.pruneLowest ∧ e.pruneLowest.delivered.keys.length + 1 = deliveredGroupWindow ∧
      e.deliveredFloor < e.pruneLowest.deliveredFloor := by
  have hlen : e.delivered.keys.length = deliveredGroupWindow := le_antisymm hwf.size hfull
  have hfloor : e.deliveredFloor ∈ e.delivered.keys := by
    refine hwf.floor_mem fun h => ?_
    rw [h] at hlen
    exact absurd hlen (by decide)
  have hlen' : e.pruneLowest.delivered.keys.length + 1 = deliveredGroupWindow := by
    simp only [pruneLowest, keys_erase]
    rw [length_erase_of_mem hfloor, hlen]
    rfl
  have hne : e.pruneLowest.delivered.keys ≠ [] := by
    intro h
    rw [h] at hlen'
    exact absurd hlen' (by decide)
  have hlow : e.pruneLowest.deliveredFloor ∈ e.pruneLowest.delivered.keys :=
    foldl_min_maxUint64_mem hne
  refine ⟨⟨by omega, fun _ => hlow, (foldl_min_le _ _).2⟩, hlen', ?_⟩
  have hmem : e.pruneLowest.deliveredFloor ∈ e.delivered.keys.erase e.deliveredFloor := by
    rw [← keys_erase]
    exact hlow
  rw [(keys_nodup e.delivered).mem_erase_iff] at hmem
  have := hwf.floor_le _ hmem.2
  grind

theorem makeRoom_spec {e : Ledger} (hwf : WF e) :
    WF e.makeRoom ∧ e.makeRoom.delivered.keys.length < deliveredGroupWindow ∧
      (∀ id, e.makeRoom.delivered.lookup id = e.delivered.lookup id ∨
        id = e.deliveredFloor ∧ deliveredGroupWindow ≤ e.delivered.keys.length) ∧
      (deliveredGroupWindow ≤ e.delivered.keys.length →
        e.makeRoom.delivered.keys.length + 1 = deliveredGroupWindow ∧
          e.deliveredFloor < e.makeRoom.deliveredFloor) := by
  unfold makeRoom
  split_ifs with hfull
  · obtain ⟨hwf', hlen, hup⟩ := pruneLowest_spec hwf hfull
    refine ⟨hwf', by omega, fun id => ?_, fun _ => ⟨hlen, hup⟩⟩
    by_cases h : id = e.deliveredFloor
    · exact .inr ⟨h, hfull⟩
    · exact .inl (lookup_erase_ne h)
  · exact ⟨hwf, by omega, fun _ => .inl rfl, fun h => absurd h hfull⟩

section AddDeliveredGroup

variable {e : Ledger} {group : UInt64} {g : DeliveredGroup}
  (hnew : e.makeRoom.delivered.lookup group = none)

theorem mem_keys_addDeliveredGroup {id : UInt64} :
    id ∈ (e.addDeliveredGroup group g).delivered.keys ↔
      id = group ∨ id ∈ e.makeRoom.delivered.keys := by
  simp only [addDeliveredGroup, ← AList.mem_keys, AList.mem_insert]

include hnew

theorem length_keys_addDeliveredGroup :
    (e.addDeliveredGroup group g).delivered.keys.length = e.makeRoom.delivered.keys.length + 1 := by
  have hnk : group ∉ e.makeRoom.delivered.keys := by
    rwa [← AList.mem_keys, ← AList.lookup_eq_none]
  simp only [addDeliveredGroup, keys_insert, length_cons, erase_of_not_mem hnk]

theorem wf_addDeliveredGroup (hwf : WF e) : WF (e.addDeliveredGroup group g) := by
  obtain ⟨hwf', hroom, -⟩ := makeRoom_spec hwf
  refine ⟨?_, fun _ => ?_, fun id hid => ?_⟩
  · rw [length_keys_addDeliveredGroup hnew]
    omega
  · rw [mem_keys_addDeliveredGroup]
    simp only [addDeliveredGroup]
    split_ifs with h
    · exact .inl rfl
    · exact .inr (hwf'.floor_mem fun hnil => h (.inl (by simp [hnil])))
  · simp only [addDeliveredGroup]
    rcases mem_keys_addDeliveredGroup.mp hid with rfl | hid
    · split_ifs <;> grind
    · have := hwf'.floor_le id hid
      split_ifs <;> grind

end AddDeliveredGroup

variable {e e' : Ledger} {group : UInt64} {o : ObjectInfo} {err : Option Malformed}

/-- A Group the ledger does not hold, and that is not aged out, is above the floor of a full
    window. -/
theorem floor_lt_of_not_agesOut (hwf : WF e) (hnew : e.delivered.lookup group = none)
    (hage : e.agesOut group = false) (hfull : deliveredGroupWindow ≤ e.delivered.keys.length) :
    e.deliveredFloor < group := by
  have hnk : group ∉ e.delivered.keys := by rwa [← AList.mem_keys, ← AList.lookup_eq_none]
  have hnlt : ¬ group < e.deliveredFloor := by
    intro h
    rw [agesOut_iff.mpr ⟨hnk, hfull, h⟩] at hage
    exact absurd hage (by decide)
  have hne : e.delivered.keys ≠ [] := by
    intro h
    rw [h] at hfull
    exact absurd hfull (by decide)
  have hne' : group ≠ e.deliveredFloor := fun h => hnk (h ▸ hwf.floor_mem hne)
  grind

/-- A Group that gets into a full window is above its floor, so the one it drives out is aged out
    from then on, with all below it. -/
theorem addDeliveredGroup_spec (hwf : WF e) (g : DeliveredGroup)
    (hnew : e.delivered.lookup group = none) (hage : e.agesOut group = false) :
    WF (e.addDeliveredGroup group g) ∧ e.Evolves (e.addDeliveredGroup group g) ∧
      (e.addDeliveredGroup group g).delivered.lookup group = some g := by
  obtain ⟨hwf', -, hlook, hprune⟩ := makeRoom_spec hwf
  have hnew' : e.makeRoom.delivered.lookup group = none := by
    rcases hlook group with h | ⟨h, hfull⟩
    · exact h.trans hnew
    · have := floor_lt_of_not_agesOut hwf hnew hage hfull
      grind
  have hwf'' := wf_addDeliveredGroup (g := g) hnew' hwf
  -- in a full window the floor goes up, so what was at or below it is aged out
  have hout : deliveredGroupWindow ≤ e.delivered.keys.length → ∀ id, id ≤ e.deliveredFloor →
      (e.addDeliveredGroup group g).agesOut id = true := by
    intro hfull id hid
    obtain ⟨hlen, hup⟩ := hprune hfull
    have habove := floor_lt_of_not_agesOut hwf hnew hage hfull
    have hlt : id < (e.addDeliveredGroup group g).deliveredFloor := by
      simp only [addDeliveredGroup]
      split_ifs <;> grind
    refine agesOut_iff.mpr ⟨fun h => ?_, ?_, hlt⟩
    · have := hwf''.floor_le id h
      grind
    · rw [length_keys_addDeliveredGroup hnew']
      omega
  refine ⟨hwf'', ⟨fun id h => ?_, fun id gid hid => ?_⟩, lookup_insert _⟩
  · obtain ⟨-, hfull, hlt⟩ := agesOut_iff.mp h
    exact hout hfull id (by grind)
  · rcases hlook id with h | ⟨rfl, hfull⟩
    · refine .inr ⟨gid, ?_, .refl gid⟩
      have hne : id ≠ group := by
        rintro rfl
        rw [hnew] at hid
        cases hid
      exact (lookup_insert_ne hne).trans (h.trans hid)
    · exact .inl (hout hfull _ (by grind))

theorem openGroup_spec {e₁ : Ledger} (hwf : WF e) {g : DeliveredGroup}
    (hage : e.agesOut group = false) (h : e.openGroup group = (e₁, g)) :
    WF e₁ ∧ e.Evolves e₁ ∧ e₁.delivered.lookup group = some g := by
  unfold openGroup at h
  split at h
  · next hg =>
    cases h
    exact ⟨hwf, .refl _, hg⟩
  · next hg =>
    cases h
    exact addDeliveredGroup_spec hwf {} hg hage

/-! ## The three operations -/

/-- What `ClaimDelivered` can do, one constructor per return. -/
inductive ClaimStep (e : Ledger) (o : ObjectInfo) : Ledger → Claim → Option Malformed → Prop
  | agedOut (hage : e.agesOut o.group = true) : ClaimStep e o e .agedOut none
  | malformed {err : Malformed} (hage : e.agesOut o.group = false)
      (hchk : (checkGroupGap (e.delivered.lookup o.group) o).or
        (e.checkEnds (e.delivered.lookup o.group) o) = some err) :
      ClaimStep e o e .redundant (some err)
  | absent (hage : e.agesOut o.group = false)
      (habs : e.announcedAbsent (e.delivered.lookup o.group) o.group o.object = true) :
      ClaimStep e o e .redundant none
  | duplicate {e₁ e₂ : Ledger} {g₁ g₂ : DeliveredGroup} (hage : e.agesOut o.group = false)
      (hchk : (checkGroupGap (e.delivered.lookup o.group) o).or
        (e.checkEnds (e.delivered.lookup o.group) o) = none)
      (habs : e.announcedAbsent (e.delivered.lookup o.group) o.group o.object = false)
      (hopen : e.openGroup o.group = (e₁, g₁))
      (hgaps : e₁.recordGaps g₁ o.group o.object o.gaps = (e₂, g₂))
      (hobj : o.object ∈ g₂.objects) :
      ClaimStep e o (e₂.put o.group g₂) .redundant none
  | fresh {e₁ e₂ : Ledger} {g₁ g₂ : DeliveredGroup} (hage : e.agesOut o.group = false)
      (hchk : (checkGroupGap (e.delivered.lookup o.group) o).or
        (e.checkEnds (e.delivered.lookup o.group) o) = none)
      (habs : e.announcedAbsent (e.delivered.lookup o.group) o.group o.object = false)
      (hopen : e.openGroup o.group = (e₁, g₁))
      (hgaps : e₁.recordGaps g₁ o.group o.object o.gaps = (e₂, g₂))
      (hobj : o.object ∉ g₂.objects) :
      ClaimStep e o ((e₂.recordTrackEnd o).put o.group
        { recordGroup g₂ o with objects := insert o.object g₂.objects }) .fresh none

theorem claimDelivered_step {claim : Claim} (h : e.claimDelivered o = (e', claim, err)) :
    ClaimStep e o e' claim err := by
  unfold claimDelivered at h
  simp only at h
  split at h
  · next hage =>
    cases h
    exact .agedOut hage
  · next hage =>
    rw [Bool.not_eq_true] at hage
    split at h
    · next hchk =>
      cases h
      exact .malformed hage hchk
    · next hchk =>
      split at h
      · next habs =>
        cases h
        exact .absent hage habs
      · next habs =>
        rw [Bool.not_eq_true] at habs
        split at h
        · next hobj =>
          cases h
          exact .duplicate hage hchk habs rfl rfl hobj
        · next hobj =>
          cases h
          exact .fresh hage hchk habs rfl rfl hobj

/-- What `RecordDuplicate` can do. -/
inductive DuplicateStep (e : Ledger) (o : ObjectInfo) : Ledger → Option Malformed → Prop
  | unheld (hg : e.delivered.lookup o.group = none) : DuplicateStep e o e none
  | unrecorded {g : DeliveredGroup} (hg : e.delivered.lookup o.group = some g)
      (hobj : o.object ∉ g.objects) : DuplicateStep e o e none
  | malformed {g : DeliveredGroup} {err : Malformed} (hg : e.delivered.lookup o.group = some g)
      (hobj : o.object ∈ g.objects) (hchk : e.checkEnds (some g) o = some err) :
      DuplicateStep e o e (some err)
  | record {g : DeliveredGroup} (hg : e.delivered.lookup o.group = some g)
      (hobj : o.object ∈ g.objects) (hchk : e.checkEnds (some g) o = none) :
      DuplicateStep e o ((e.recordTrackEnd o).put o.group (recordGroup g o)) none

theorem recordDuplicate_step (h : e.recordDuplicate o = (e', err)) : DuplicateStep e o e' err := by
  unfold recordDuplicate at h
  split at h
  · next hg =>
    cases h
    exact .unheld hg
  · next g hg =>
    split_ifs at h with hobj
    · split at h
      · next hchk =>
        cases h
        exact .malformed hg hobj hchk
      · next hchk =>
        cases h
        exact .record hg hobj hchk
    · cases h
      exact .unrecorded hg hobj

/-- What `SubgroupEnded` can do. -/
inductive EndedStep (e : Ledger) (last : ObjectInfo) (eog : Bool) :
    Ledger → Option Malformed → Prop
  | unheld (hg : e.delivered.lookup last.group = none) : EndedStep e last eog e none
  | endless {g : DeliveredGroup} (hg : e.delivered.lookup last.group = some g)
      (hfin : finEnd last = none) : EndedStep e last eog e none
  | malformed {g : DeliveredGroup} {atID : UInt64} {hard : Bool} {err : Malformed}
      (hg : e.delivered.lookup last.group = some g) (hfin : finEnd last = some (atID, hard))
      (hchk : checkFin g last eog atID hard = some err) : EndedStep e last eog e (some err)
  | record {g : DeliveredGroup} {atID : UInt64} {hard : Bool}
      (hg : e.delivered.lookup last.group = some g) (hfin : finEnd last = some (atID, hard))
      (hchk : checkFin g last eog atID hard = none) :
      EndedStep e last eog (e.put last.group (recordFin g last eog atID hard)) none

theorem subgroupEnded_step {last : ObjectInfo} {eog : Bool}
    (h : e.subgroupEnded last eog = (e', err)) : EndedStep e last eog e' err := by
  unfold subgroupEnded at h
  split at h
  · next hg =>
    cases h
    exact .unheld hg
  · next g hg =>
    split at h
    · next hfin =>
      cases h
      exact .endless hg hfin
    · next hfin =>
      split at h
      · next hchk =>
        cases h
        exact .malformed hg hfin hchk
      · next hchk =>
        cases h
        exact .record hg hfin hchk

/-! Each operation is `openGroup` at most, then one `put`. -/

theorem evolves_claimDelivered {claim : Claim} (hwf : WF e) (h : ClaimStep e o e' claim err) :
    WF e' ∧ e.Evolves e' := by
  cases h with
  | agedOut | malformed | absent => exact ⟨hwf, .refl e⟩
  | duplicate hage _ _ hopen hgaps hobj =>
    obtain ⟨hwf₁, hev, hlook⟩ := openGroup_spec hwf hage hopen
    obtain ⟨hdel, hfl, hgrow, -⟩ := recordGaps_spec hgaps
    exact ⟨hwf₁.put hdel hfl hlook, hev.trans (evolves_put hdel hfl hlook hgrow)⟩
  | @fresh e₁ e₂ g₁ g₂ hage hchk habs hopen hgaps hobj =>
    obtain ⟨hwf₁, hev, hlook⟩ := openGroup_spec hwf hage hopen
    obtain ⟨hdel, hfl, hgrow, -⟩ := recordGaps_spec hgaps
    have hrec := grows_recordGroup g₂ o
    have hgrow' : g₁.Grows { recordGroup g₂ o with objects := insert o.object g₂.objects } :=
      hgrow.trans ⟨Finset.subset_insert _ _, hrec.objectGaps, hrec.ending⟩
    rw [← recordTrackEnd_delivered e₂ o] at hdel
    rw [← recordTrackEnd_deliveredFloor e₂ o] at hfl
    exact ⟨hwf₁.put hdel hfl hlook, hev.trans (evolves_put hdel hfl hlook hgrow')⟩

theorem evolves_recordDuplicate (hwf : WF e) (h : DuplicateStep e o e' err) :
    WF e' ∧ e.Evolves e' := by
  cases h with
  | unheld | unrecorded | malformed => exact ⟨hwf, .refl e⟩
  | @record g hg =>
    have hdel := recordTrackEnd_delivered e o
    have hfl := recordTrackEnd_deliveredFloor e o
    exact ⟨hwf.put hdel hfl hg, evolves_put hdel hfl hg (grows_recordGroup g o)⟩

theorem evolves_subgroupEnded {last : ObjectInfo} {eog : Bool} (hwf : WF e)
    (h : EndedStep e last eog e' err) : WF e' ∧ e.Evolves e' := by
  cases h with
  | unheld | endless | malformed => exact ⟨hwf, .refl e⟩
  | record hg =>
    refine ⟨hwf.put rfl rfl hg, evolves_put rfl rfl hg ⟨Finset.Subset.refl _, fun _ h => h, ?_⟩⟩
    cases eog with
    | true => exact End.lowers_withEnd _ _ _
    | false => exact .refl _

/-- **Every call keeps the window's shape, and forgets nothing but by ageing it out.** -/
theorem call_evolves (hwf : WF e) (c : Call) : WF (e.call c).1 ∧ e.Evolves (e.call c).1 := by
  cases c with
  | claimDelivered o => exact evolves_claimDelivered hwf (claimDelivered_step rfl)
  | recordDuplicate o => exact evolves_recordDuplicate hwf (recordDuplicate_step rfl)
  | subgroupEnded last eog => exact evolves_subgroupEnded hwf (subgroupEnded_step rfl)

/-! ## At most once -/

/-- The ledger never takes `loc` as fresh again: it is recorded, or its Group is aged out. -/
def Settled (e : Ledger) (loc : Location) : Prop :=
  e.agesOut loc.group = true ∨
    ∃ g, e.delivered.lookup loc.group = some g ∧ loc.object ∈ g.objects

theorem Settled.evolves {loc : Location} (h : e.Settled loc) (hev : e.Evolves e') :
    e'.Settled loc := by
  rcases h with hage | ⟨g, hg, hmem⟩
  · exact .inl (hev.aged _ hage)
  · rcases hev.held _ g hg with hage | ⟨g', hg', hgrow⟩
    · exact .inl hage
    · exact .inr ⟨g', hg', hgrow.objects hmem⟩

/-- A fresh claim settles a Location that was not. -/
theorem settled_of_fresh (h : ClaimStep e o e' .fresh err) :
    ¬ e.Settled o.loc ∧ e'.Settled o.loc := by
  cases h with
  | @fresh e₁ e₂ g₁ g₂ hage _ _ hopen hgaps hobj =>
    constructor
    · rintro (h | ⟨g, hg, hmem⟩)
      · exact absurd (hage.symm.trans h) (by decide)
      · -- a held Group is the one opened, and gaps add no Object
        unfold openGroup at hopen
        rw [show o.loc.group = o.group from rfl] at hg
        rw [hg] at hopen
        cases hopen
        obtain ⟨-, -, -, hobjs⟩ := recordGaps_spec hgaps
        exact hobj (hobjs ▸ hmem)
    · exact .inr ⟨_, lookup_insert _, Finset.mem_insert_self _ _⟩

end Ledger

namespace TrackEntry

variable {S : Type}

/-- The Locations `ClaimDelivered` reported fresh, without an error, over `calls`: each call
    at the time it is made. -/
def freshClaims : TrackEntry S → List (Nat × Ledger.Call) → List Location
  | _, [] => []
  | e, (now, c) :: calls =>
    let (e', reply) := e.call now c
    match c, reply with
    | .claimDelivered o, ⟨some .fresh, none⟩ => o.loc :: e'.freshClaims calls
    | _, _ => e'.freshClaims calls

theorem freshClaims_cons (e : TrackEntry S) (now : Nat) (c : Ledger.Call)
    (calls : List (Nat × Ledger.Call)) :
    e.freshClaims ((now, c) :: calls) = (e.call now c).1.freshClaims calls ∨
      ∃ o, c = .claimDelivered o ∧
        e.ledger.ClaimStep o (e.call now c).1.ledger .fresh none ∧
        e.freshClaims ((now, c) :: calls) = o.loc :: (e.call now c).1.freshClaims calls := by
  simp only [freshClaims]
  split
  · next o hreply =>
    refine .inr ⟨o, rfl, ?_, rfl⟩
    have hreply : (e.ledger.call (.claimDelivered o)).2 = ⟨some .fresh, none⟩ := hreply
    simp only [Ledger.call, Ledger.Reply.mk.injEq, Option.some.injEq] at hreply ⊢
    exact Ledger.claimDelivered_step (Prod.ext rfl (Prod.ext hreply.1 hreply.2))
  · exact .inl rfl

/-- By induction on the calls, for any entry: what is fresh later is not settled now, so it is not
    the Location the first call settles. -/
theorem freshClaims_nodup_of_wf (calls : List (Nat × Ledger.Call)) :
    ∀ {e : TrackEntry S}, e.ledger.WF → (e.freshClaims calls).Nodup ∧
      ∀ loc ∈ e.freshClaims calls, ¬ e.ledger.Settled loc := by
  induction calls with
  | nil => intro e _; simp [freshClaims]
  | cons p calls ih =>
    intro e hwf
    obtain ⟨now, c⟩ := p
    obtain ⟨hwf', hev⟩ := Ledger.call_evolves hwf c
    obtain ⟨hnodup, htail⟩ := ih (e := (e.call now c).1) hwf'
    have hrest : ∀ loc ∈ (e.call now c).1.freshClaims calls, ¬ e.ledger.Settled loc :=
      fun loc hloc hs => htail loc hloc (hs.evolves hev)
    rcases freshClaims_cons e now c calls with h | ⟨o, rfl, hstep, h⟩
    · rw [h]
      exact ⟨hnodup, hrest⟩
    · obtain ⟨hnot, hsettled⟩ := Ledger.settled_of_fresh hstep
      rw [h, nodup_cons]
      refine ⟨⟨fun hmem => htail _ hmem hsettled, hnodup⟩, ?_⟩
      intro loc hloc
      rcases mem_cons.mp hloc with rfl | hloc
      · exact hnot
      · exact hrest loc hloc

/-- **At-most-once delivery**: over any calls on a new entry, in any order and at any times,
    `ClaimDelivered` reports each (Group, Object) fresh at most once, however many Groups the
    window has forgotten meanwhile. -/
theorem claimDelivered_fresh_at_most_once (cache : ObjectCache) (calls : List (Nat × Ledger.Call)) :
    (({ cache := cache } : TrackEntry S).freshClaims calls).Nodup :=
  (freshClaims_nodup_of_wf calls Ledger.WF.new).1

end TrackEntry
end MoqGo.Relay
