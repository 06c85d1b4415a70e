import MoqGo.Relay.Ledger.Absent

/-!
# The lowest Object forwarded, as the ledger remembers it

`LowestForwarded` reports the lowest Object ID recorded in a Subgroup. The writers of a Subgroup
are forgotten with its last contributor; the ledger is what a later set starts from. **It never
reports too much**: once an Object is recorded, what is reported is no higher, for as long as the
Group stays in the window.
-/

namespace MoqGo.Relay

/-- The lowest Object of each Subgroup only falls. -/
def DeliveredGroup.Deepens (g g' : DeliveredGroup) : Prop :=
  ∀ subgroup sg, g.subgroups.lookup subgroup = some sg → sg.hasObject = true →
    ∃ sg', g'.subgroups.lookup subgroup = some sg' ∧ sg'.hasObject = true ∧
      sg'.minObject ≤ sg.minObject

namespace DeliveredGroup.Deepens

theorem of_subgroups {g g' : DeliveredGroup} (h : g'.subgroups = g.subgroups) : g.Deepens g' := by
  intro subgroup sg hsg hobject
  exact ⟨sg, h ▸ hsg, hobject, UInt64.le_refl _⟩

theorem trans {a b c : DeliveredGroup} (hab : a.Deepens b) (hbc : b.Deepens c) : a.Deepens c := by
  intro subgroup sg hsg hobject
  obtain ⟨sg', hsg', hobject', hle⟩ := hab subgroup sg hsg hobject
  obtain ⟨sg'', hsg'', hobject'', hle'⟩ := hbc subgroup sg' hsg' hobject'
  exact ⟨sg'', hsg'', hobject'', UInt64.le_trans hle' hle⟩

theorem insert {g g' : DeliveredGroup} {subgroup₀ : UInt64} {sg₀ : SubgroupLedger}
    (h : g'.subgroups = g.subgroups.insert subgroup₀ sg₀)
    (hold : ∀ sg, g.subgroups.lookup subgroup₀ = some sg → sg.hasObject = true →
      sg₀.hasObject = true ∧ sg₀.minObject ≤ sg.minObject) : g.Deepens g' := by
  intro subgroup sg hsg hobject
  by_cases hsame : subgroup = subgroup₀
  · subst hsame
    obtain ⟨hobject₀, hle⟩ := hold sg hsg hobject
    exact ⟨sg₀, by rw [h, AList.lookup_insert], hobject₀, hle⟩
  · exact ⟨sg, by rw [h, AList.lookup_insert_ne hsame, hsg], hobject, UInt64.le_refl _⟩

end DeliveredGroup.Deepens

namespace Ledger

variable {l l' l₁ l₂ : Ledger} {g g₁ g₂ : DeliveredGroup} {o : ObjectInfo}
  {group id subgroup : UInt64}

/-! ## What is recorded -/

/-- The new lowest is at or below both the Object recorded and the lowest there was. -/
theorem recordSubgroup_lowest (sg : Option SubgroupLedger) (o : ObjectInfo) :
    (recordSubgroup sg o).hasObject = true ∧ (recordSubgroup sg o).minObject ≤ o.object ∧
      ∀ sg', sg = some sg' → sg'.hasObject = true →
        (recordSubgroup sg o).minObject ≤ sg'.minObject := by
  refine ⟨rfl, ?_, ?_⟩
  · simp only [recordSubgroup]
    split_ifs with hlow
    · exact UInt64.le_refl _
    · grind
  · rintro sg' rfl hobject
    simp only [recordSubgroup, Option.getD_some, hobject]
    split_ifs with hlow <;> grind

theorem recordGroup_deepens (g : DeliveredGroup) (o : ObjectInfo) :
    g.Deepens (recordGroup g o) := by
  cases hdatagram : o.datagram with
  | true => exact .of_subgroups (by simp [recordGroup, hdatagram])
  | false =>
    obtain ⟨hobject, -, hle⟩ := recordSubgroup_lowest (g.subgroups.lookup o.subgroup) o
    have hsubgroups : (recordGroup g o).subgroups =
        g.subgroups.insert o.subgroup (recordSubgroup (g.subgroups.lookup o.subgroup) o) := by
      simp [recordGroup, hdatagram]
    exact .insert hsubgroups fun sg hsg hold => ⟨hobject, hle sg hsg hold⟩

/-- A FIN may close a Subgroup the ledger has no Object of; it then has none still. -/
theorem recordFin_deepens (g : DeliveredGroup) (last : ObjectInfo) (eog : Bool) (atID : UInt64)
    (hard : Bool) : g.Deepens (recordFin g last eog atID hard) := by
  refine .insert rfl fun sg hsg hobject => ?_
  rw [hsg]
  exact ⟨hobject, UInt64.le_refl _⟩

theorem recordGaps_subgroups {object : UInt64} {gaps : Message.PriorGaps}
    (h : l.recordGaps g group object gaps = (l', g₁)) : g₁.subgroups = g.subgroups := by
  have hgap : (recordObjectGap g object gaps).subgroups = g.subgroups := by
    unfold recordObjectGap
    split
    · split_ifs <;> rfl
    · rfl
  unfold recordGaps at h
  simp only at h
  split_ifs at h
  · split at h <;> cases h <;> exact hgap
  · cases h
    exact hgap

/-! ## Calls -/

/-- The window may age a Group out whole, and with it every lowest; a Group it keeps only gets
    deeper. `Evolves` does not say so, as it forgets about Subgroups. -/
def KeepsLowest (l l' : Ledger) : Prop :=
  ∀ id g, l.delivered.lookup id = some g →
    l'.agesOut id = true ∨ ∃ g', l'.delivered.lookup id = some g' ∧ g.Deepens g'

theorem KeepsLowest.refl (l : Ledger) : l.KeepsLowest l :=
  fun _ g h => .inr ⟨g, h, .of_subgroups rfl⟩

/-- Opening a Group alters no entry there is; it drops the lowest at most, to make room. -/
theorem openGroup_held (hwf : WF l) (hage : l.agesOut group = false)
    (hopen : l.openGroup group = (l₁, g₁)) (h : l.delivered.lookup id = some g) :
    l₁.agesOut id = true ∨ l₁.delivered.lookup id = some g := by
  obtain ⟨-, hev, hlook⟩ := openGroup_spec hwf hage hopen
  rcases hev.held id g h with hout | ⟨g', hg', -⟩
  · exact .inl hout
  · rcases lookup_openGroup hopen hg' with hold | ⟨rfl, -⟩
    · rw [h] at hold
      exact .inr (hold ▸ hg')
    · -- the Group opened was held itself
      simp only [openGroup, h] at hopen
      cases hopen
      exact .inr h

theorem KeepsLowest.put (hwf : WF l) (hage : l.agesOut group = false)
    (hopen : l.openGroup group = (l₁, g₁)) (hdel : l₂.delivered = l₁.delivered)
    (hfloor : l₂.deliveredFloor = l₁.deliveredFloor) (hdeep : g₁.Deepens g₂) :
    l.KeepsLowest (l₂.put group g₂) := by
  obtain ⟨-, -, hlook⟩ := openGroup_spec hwf hage hopen
  intro id g h
  rcases openGroup_held hwf hage hopen h with hout | hheld
  · exact .inl ((agesOut_put hdel hfloor hlook).trans hout)
  · right
    by_cases hid : id = group
    · subst hid
      cases (hheld.symm.trans hlook)
      exact ⟨g₂, AList.lookup_insert _, hdeep⟩
    · refine ⟨g, ?_, .of_subgroups rfl⟩
      rw [← hheld, ← hdel]
      exact AList.lookup_insert_ne hid

theorem openGroup_of_held (hg : l.delivered.lookup group = some g) :
    l.agesOut group = false ∧ l.openGroup group = (l, g) := by
  constructor
  · simp [agesOut, hg]
  · simp only [openGroup, hg]

/-- Every return of the three calls, through the `put` it ends in. -/
theorem call_keepsLowest (hwf : WF l) (c : Call) : l.KeepsLowest (l.call c).1 := by
  cases c with
  | claimDelivered o =>
    have hstep : ∀ {l' claim err}, ClaimStep l o l' claim err → l.KeepsLowest l' := by
      intro l' claim err h
      cases h with
      | agedOut | malformed | absent => exact .refl l
      | duplicate hage _ _ hopen hgaps _ =>
        obtain ⟨hdel, hfloor, -⟩ := recordGaps_spec hgaps
        exact .put hwf hage hopen hdel hfloor (.of_subgroups (recordGaps_subgroups hgaps))
      | @fresh e₁ e₂ g₁ g₂ hage _ _ hopen hgaps _ =>
        obtain ⟨hdel, hfloor, -⟩ := recordGaps_spec hgaps
        have hgap : g₁.Deepens g₂ := .of_subgroups (recordGaps_subgroups hgaps)
        refine .put hwf hage hopen ((recordTrackEnd_delivered e₂ o).trans hdel)
          ((recordTrackEnd_deliveredFloor e₂ o).trans hfloor) ?_
        exact (hgap.trans (recordGroup_deepens g₂ o)).trans (.of_subgroups rfl)
    exact hstep (claimDelivered_step rfl)
  | recordDuplicate o =>
    have hstep : ∀ {l' err}, DuplicateStep l o l' err → l.KeepsLowest l' := by
      intro l' err h
      cases h with
      | unheld | unrecorded | malformed => exact .refl l
      | @record g hg _ _ =>
        obtain ⟨hage, hopen⟩ := openGroup_of_held hg
        exact .put hwf hage hopen (recordTrackEnd_delivered l o)
          (recordTrackEnd_deliveredFloor l o) (recordGroup_deepens g o)
    exact hstep (recordDuplicate_step rfl)
  | subgroupEnded last eog =>
    have hstep : ∀ {l' err}, EndedStep l last eog l' err → l.KeepsLowest l' := by
      intro l' err h
      cases h with
      | unheld | endless | malformed => exact .refl l
      | @record g atID hard hg _ _ =>
        obtain ⟨hage, hopen⟩ := openGroup_of_held hg
        exact .put hwf hage hopen rfl rfl (recordFin_deepens g last eog atID hard)
    exact hstep (subgroupEnded_step rfl)

/-! ## What is reported -/

/-- `LowestForwarded` of the Subgroup reports an Object no higher than `id`. -/
def Reports (l : Ledger) (group subgroup id : UInt64) : Prop :=
  ∃ lowest, l.lowestForwarded group subgroup = some lowest ∧ lowest ≤ id

theorem reports_of_lookup {sg : SubgroupLedger} (hg : l.delivered.lookup group = some g)
    (hsg : g.subgroups.lookup subgroup = some sg) (hobject : sg.hasObject = true)
    (hle : sg.minObject ≤ id) : l.Reports group subgroup id := by
  refine ⟨sg.minObject, ?_, hle⟩
  simp only [lowestForwarded, hg, Option.bind_some, hsg, hobject, if_true]

theorem Reports.lookup (h : l.Reports group subgroup id) :
    ∃ g sg, l.delivered.lookup group = some g ∧ g.subgroups.lookup subgroup = some sg ∧
      sg.hasObject = true ∧ sg.minObject ≤ id := by
  obtain ⟨lowest, hlow, hle⟩ := h
  unfold lowestForwarded at hlow
  split at hlow
  · next sg hsg =>
    obtain ⟨g, hg, hsg⟩ := Option.bind_eq_some_iff.mp hsg
    split_ifs at hlow with hobject
    cases hlow
    exact ⟨g, sg, hg, hsg, hobject, hle⟩
  · cases hlow

theorem Reports.keeps (h : l.Reports group subgroup id) (hk : l.KeepsLowest l') :
    l'.agesOut group = true ∨ l'.Reports group subgroup id := by
  obtain ⟨g, sg, hg, hsg, hobject, hle⟩ := h.lookup
  rcases hk group g hg with hout | ⟨g', hg', hdeep⟩
  · exact .inl hout
  · obtain ⟨sg', hsg', hobject', hle'⟩ := hdeep subgroup sg hsg hobject
    exact .inr (reports_of_lookup hg' hsg' hobject' (UInt64.le_trans hle' hle))

/-- Datagrams have no Subgroup and are not counted. -/
theorem reports_of_fresh {err : Option Malformed} (hdatagram : o.datagram = false)
    (h : ClaimStep l o l' .fresh err) : l'.Reports o.group o.subgroup o.object := by
  cases h with
  | @fresh e₁ e₂ g₁ g₂ _ _ _ _ _ _ =>
    obtain ⟨hobject, hle, -⟩ := recordSubgroup_lowest (g₂.subgroups.lookup o.subgroup) o
    refine reports_of_lookup (AList.lookup_insert _) ?_ hobject hle
    simp only [recordGroup, hdatagram, Bool.false_eq_true, if_false, AList.lookup_insert]

end Ledger
end MoqGo.Relay
