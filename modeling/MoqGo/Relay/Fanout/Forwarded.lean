import MoqGo.Relay.Fanout.Attach
import MoqGo.Relay.Ledger.Window

/-!
# No Object is forwarded twice

A fresh claim is made once for each Object, so what fresh claims forward is forwarded once. An
Object whose Group has aged out of the ledger is forwarded too, without a claim, if it lies
above every Object the set has forwarded. **The set, not the Subgroup**: an earlier set of the
Subgroup, or a contributor that has claimed the Object and not forwarded it yet, is not
consulted, and the Object goes out twice (`forwarded_twice`).

Where no such Object was claimed fresh before (`AgedOutUnclaimed`), none is forwarded twice, in
any interleaving (`forwards_nodup`). What went out without a claim is never claimed fresh
later, its Group having aged out for good; and a set made after that forwards nothing at all.
-/

namespace MoqGo.Relay

open Message
open Function (forall_update_iff update update_apply update_of_ne update_self)

/-! ## The end of a set's run -/

namespace WriterSet

/-- The ends of the run. -/
def run (s : WriterSet) : Bool × UInt64 × UInt64 := (s.hasRun, s.runLo, s.runHi)

theorem lower_run (s : WriterSet) (id : UInt64) : (s.lower id).run = s.run := by
  unfold lower
  split <;> rfl

theorem openInitial_run (s : WriterSet) (cfg : Config) (established : SubID → Bool)
    (subs : List SubID) (gen : Nat) (lowest : Option UInt64) :
    (s.openInitial cfg established subs gen lowest).run = s.run := by
  refine (congrArg run (s.openInitial_facts cfg established subs gen lowest) :).trans ?_
  cases lowest with
  | none => rfl
  | some lowest => exact s.lower_run lowest

theorem leave_run (s : WriterSet) (reset : Bool) (code : StreamResetCode) (covers : Bool)
    (coverFrom : UInt64) : (s.leave reset code covers coverFrom).run = s.run := by
  unfold leave
  split_ifs <;> rfl

variable {s : WriterSet}

theorem extendRun_run (hle : s.runLo ≤ s.runHi) (id : UInt64) :
    (s.extendRun id).hasRun = true ∧ (s.extendRun id).runLo ≤ (s.extendRun id).runHi ∧
      id ≤ (s.extendRun id).runHi ∧ (s.hasRun = true → s.runHi ≤ (s.extendRun id).runHi) := by
  unfold extendRun
  split_ifs with hrun hup hdown
  · exact ⟨rfl, UInt64.le_refl _, UInt64.le_refl _, fun h => absurd h (by simpa using hrun)⟩
  · simp only [Bool.and_eq_true, decide_eq_true_eq, beq_iff_eq] at hup
    refine ⟨by simpa using hrun, ?_, UInt64.le_refl _, fun _ => ?_⟩ <;> grind
  · refine ⟨by simpa using hrun, ?_, ?_, fun _ => UInt64.le_refl _⟩ <;> grind
  · refine ⟨by simpa using hrun, ?_, ?_, fun _ => ?_⟩ <;> grind

theorem forward_run (hle : s.runLo ≤ s.runHi) (verdict : SubID → ForwardVerdict) (pos : InboundPos)
    (id : UInt64) (obj : SubgroupObject) (claimed : Bool) (heard : Nat) :
    (s.forward verdict pos id obj claimed heard).hasRun = true ∧
      (s.forward verdict pos id obj claimed heard).runLo ≤
        (s.forward verdict pos id obj claimed heard).runHi ∧
      id ≤ (s.forward verdict pos id obj claimed heard).runHi ∧
      (s.hasRun = true → s.runHi ≤ (s.forward verdict pos id obj claimed heard).runHi) := by
  have hlow := s.lower_run id
  simp only [run, Prod.mk.injEq] at hlow
  obtain ⟨hhas, hlo, hhi⟩ := hlow
  have h := extendRun_run (s := s.lower id) (by rw [hlo, hhi]; exact hle) id
  rw [hhas, hhi] at h
  exact h

end WriterSet

namespace World

/-! ## Claims about to be forwarded -/

/-- Contributor `c` has claimed Object `id` of Subgroup `k`, fresh, and not forwarded it yet. -/
def PendingFresh (W : World) (c : ContribID) (k : SubgroupKey) (id : UInt64) : Prop :=
  ∃ ct claim obj heard, W.contribs c = some ct ∧ ct.phase = .claimed claim obj heard ∧
    claim ≠ .agedOut ∧ ct.key = k ∧ ct.objectID = id

theorem PendingFresh.seat {W : World} {c : ContribID} {k : SubgroupKey} {id : UInt64}
    (h : W.PendingFresh c k id) : ∃ i, W.seat c = some (k, i) := by
  obtain ⟨ct, claim, obj, heard, hc, hp, -, hk, -⟩ := h
  exact ⟨ct.set, hk ▸ seat_of hc (by simp [hp])⟩

theorem quiet_ne_claimed {p : Phase} (h : p.quiet = true) (claim : Claim) (obj : SubgroupObject)
    (heard : Heard) : p ≠ .claimed claim obj heard := by
  rintro rfl
  cases h

/-! ## The invariant -/

/-- What makes forwarding at most once inductive. -/
structure Once (W : World) : Prop where
  attached : Attached W
  wf : W.entry.ledger.WF
  ordered : ∀ i, (W.sets i).runLo ≤ (W.sets i).runHi
  /-- The ledger never claims these fresh again. -/
  settled : ∀ k id, (k, id) ∈ W.freshClaimed → W.entry.ledger.Settled ⟨k.group, id⟩
  pending : ∀ c k id, W.PendingFresh c k id → (k, id) ∈ W.freshClaimed ∧ (k, id) ∉ W.forwards
  pending_inj : ∀ c c' k id, W.PendingFresh c k id → W.PendingFresh c' k id → c = c'
  pending_aged : ∀ c ct obj heard, W.contribs c = some ct →
    ct.phase = .claimed .agedOut obj heard → W.entry.ledger.agesOut ct.key.group = true
  nodup : W.forwards.Nodup
  /-- What went out without a claim has aged out, and the set there now is past it, or has
      forwarded nothing and has nothing to start with. -/
  aged : ∀ k id, (k, id) ∈ W.forwards → (k, id) ∉ W.freshClaimed →
    W.entry.ledger.agesOut k.group = true ∧
      ∀ i refs, W.entry.subgroups.lookup k = some ⟨i, refs⟩ →
        ((W.sets i).hasRun = true → id ≤ (W.sets i).runHi) ∧
        ((W.sets i).hasRun = false → ∀ c id', ¬ W.PendingFresh c k id')

namespace Once

theorem init (cfg : WriterSet.Config) (cache : ObjectCache) : Once (init cfg cache) := by
  refine ⟨.init cfg cache, .new, fun _ => UInt64.le_refl _, ?_, ?_, ?_, ?_, List.nodup_nil, ?_⟩
  · intro k id h
    exact absurd h (by simp [World.init])
  · rintro c k id ⟨ct, claim, obj, heard, hc, -⟩
    exact absurd hc (by simp [World.init])
  · rintro c c' k id ⟨ct, claim, obj, heard, hc, -⟩
    exact absurd hc (by simp [World.init])
  · intro c ct obj heard hc
    exact absurd hc (by simp [World.init])
  · intro k id h
    exact absurd h (by simp [World.init])

variable {W W' : World} {ct : Contributor} {c : ContribID}

theorem frame (hi : Once W) (hatt : Attached W')
    (hev : W'.entry.ledger.WF ∧ W.entry.ledger.Evolves W'.entry.ledger)
    (hrun : ∀ i, (W'.sets i).run = (W.sets i).run)
    (hsub : ∀ k i refs, W'.entry.subgroups.lookup k = some ⟨i, refs⟩ →
      ∃ refs', W.entry.subgroups.lookup k = some ⟨i, refs'⟩)
    (hcontribs : ∀ c ct, W'.contribs c = some ct → W.contribs c = some ct ∨
      ∀ claim obj heard, ct.phase = .claimed claim obj heard →
        claim = .agedOut ∧ W'.entry.ledger.agesOut ct.key.group = true)
    (hfresh : W'.freshClaimed = W.freshClaimed) (hfwd : W'.forwards = W.forwards) : Once W' := by
  have hpend : ∀ c k id, W'.PendingFresh c k id → W.PendingFresh c k id := by
    rintro c k id ⟨ct, claim, obj, heard, hc, hp, hne, hrest⟩
    rcases hcontribs c ct hc with hc | hq
    · exact ⟨ct, claim, obj, heard, hc, hp, hne, hrest⟩
    · exact absurd (hq claim obj heard hp).1 hne
  simp only [WriterSet.run, Prod.mk.injEq] at hrun
  refine ⟨hatt, hev.1, ?_, ?_, ?_, ?_, ?_, ?_, ?_⟩
  · intro i
    rw [(hrun i).2.1, (hrun i).2.2]
    exact hi.ordered i
  · intro k id h
    exact (hi.settled k id (hfresh ▸ h)).evolves hev.2
  · intro c k id h
    rw [hfresh, hfwd]
    exact hi.pending c k id (hpend c k id h)
  · intro c c' k id h h'
    exact hi.pending_inj c c' k id (hpend c k id h) (hpend c' k id h')
  · intro c ct obj heard hc hp
    rcases hcontribs c ct hc with hc | hq
    · exact hev.2.aged _ (hi.pending_aged c ct obj heard hc hp)
    · exact (hq _ obj heard hp).2
  · rw [hfwd]
    exact hi.nodup
  · intro k id hmem hnot
    obtain ⟨hage, hset⟩ := hi.aged k id (hfwd ▸ hmem) (hfresh ▸ hnot)
    refine ⟨hev.2.aged _ hage, ?_⟩
    intro i refs hl
    obtain ⟨refs', hl'⟩ := hsub k i refs hl
    rw [(hrun i).1, (hrun i).2.2]
    refine ⟨(hset i refs' hl').1, ?_⟩
    intro hnone c id' hp
    exact (hset i refs' hl').2 hnone c id' (hpend c k id' hp)

theorem evolves_after (hi : Once W) (call : Option Ledger.Call) (cache : ObjectCache) :
    (W.entry.after call cache).ledger.WF ∧
      W.entry.ledger.Evolves (W.entry.after call cache).ledger := by
  cases call with
  | none => exact ⟨hi.wf, .refl _⟩
  | some call => exact Ledger.call_evolves hi.wf call

theorem run_putSet {i : SetID} {s : WriterSet} (h : s.run = (W.sets i).run) (j : SetID) :
    ((W.putSet i s).sets j).run = (W.sets j).run := by
  simp only [putSet, update_apply]
  split_ifs with hj
  · rw [h, hj]
  · rfl

theorem quiet_aged {e : Ledger} (hq : ct.phase.quiet = true) (claim : Claim) (obj : SubgroupObject)
    (heard : Heard) (hp : ct.phase = .claimed claim obj heard) :
    claim = .agedOut ∧ e.agesOut ct.key.group = true :=
  absurd hp (quiet_ne_claimed hq claim obj heard)

section

variable (hi : Once W) (hatt : Attached W')
include hi hatt

theorem joins {k₀ : SubgroupKey} {sg : SharedSubgroup SetID}
    (hl : W.entry.subgroups.lookup k₀ = some sg) (hq : ct.phase.quiet = true) (hW' : W' = { W with
      entry := { W.entry with
        subgroups := W.entry.subgroups.insert k₀ { sg with refs := sg.refs + 1 } } }.putContrib c
      ct) : Once W' := by
  subst hW'
  exact hi.frame hatt ⟨hi.wf, .refl _⟩ (fun _ => rfl)
    (fun _ _ _ => TrackEntry.lookup_insert_refs hl) (putContrib_cases (quiet_aged hq)) rfl rfl

theorem makes {k₀ : SubgroupKey} {hdr : SubgroupHeader}
    (hl : W.entry.subgroups.lookup k₀ = none) (hq : ct.phase.quiet = true) (hW' : W' = { W with
      entry := { W.entry with subgroups := W.entry.subgroups.insert k₀ ⟨W.nextSet, 1⟩ }
      sets := update W.sets W.nextSet { hdr := hdr }
      nextSet := W.nextSet + 1 }.putContrib c ct) : Once W' := by
  have hput : ∀ c' ct', W'.contribs c' = some ct' → W.contribs c' = some ct' ∨
      ∀ claim obj heard, ct'.phase = .claimed claim obj heard →
        claim = .agedOut ∧ W.entry.ledger.agesOut ct'.key.group = true := by
    subst hW'
    exact putContrib_cases (quiet_aged hq)
  have hpend : ∀ c' k id, W'.PendingFresh c' k id → W.PendingFresh c' k id := by
    rintro c' k id ⟨ct', claim, obj, heard, hc', hp, hne, hrest⟩
    rcases hput c' ct' hc' with hc' | hno
    · exact ⟨ct', claim, obj, heard, hc', hp, hne, hrest⟩
    · exact absurd (hno claim obj heard hp).1 hne
  subst hW'
  refine ⟨hatt, hi.wf, ?_, hi.settled, ?_, ?_, ?_, hi.nodup, ?_⟩
  · exact (forall_update_iff W.sets fun _ s => s.runLo ≤ s.runHi).mpr
      ⟨UInt64.le_refl _, fun i _ => hi.ordered i⟩
  · intro c' k id h
    exact hi.pending c' k id (hpend c' k id h)
  · intro c' c'' k id h h'
    exact hi.pending_inj c' c'' k id (hpend c' k id h) (hpend c'' k id h')
  · intro c' ct' obj heard hc' hp
    rcases hput c' ct' hc' with hc' | hno
    · exact hi.pending_aged c' ct' obj heard hc' hp
    · exact (hno _ obj heard hp).2
  · intro k id hmem hnot
    obtain ⟨hage, hset⟩ := hi.aged k id hmem hnot
    refine ⟨hage, ?_⟩
    intro i refs hk
    by_cases hkk : k = k₀
    · subst hkk
      simp only [putContrib, AList.lookup_insert, Option.some.injEq, SharedSubgroup.mk.injEq] at hk
      obtain ⟨rfl, -⟩ := hk
      simp only [putContrib, update_self]
      refine ⟨fun h => absurd h (by simp), ?_⟩
      -- a pending claim would have kept the Subgroup's set
      intro _ c' id' hp
      obtain ⟨j, hseat⟩ := (hpend c' _ id' hp).seat
      obtain ⟨refs', hl'⟩ := hi.attached.live c' _ j hseat
      rw [hl] at hl'
      cases hl'
    · simp only [putContrib, AList.lookup_insert_ne hkk] at hk
      have hne : i ≠ W.nextSet := Nat.ne_of_lt (hi.attached.bound k _ hk)
      simp only [putContrib, update_of_ne hne]
      refine ⟨(hset i refs hk).1, ?_⟩
      intro hnone c' id' hp
      exact (hset i refs hk).2 hnone c' id' (hpend c' k id' hp)

theorem claimFresh {obj : SubgroupObject} {heard : Heard}
    {cache : ObjectCache} (h : (W.entry.ledger.claimDelivered (ct.info obj)).2 = (.fresh, none))
    (hW' : W' = { W with
        entry := W.entry.after (some (.claimDelivered (ct.info obj))) cache
        freshClaimed := (ct.key, ct.objectID) :: W.freshClaimed }.putContrib c
      { ct.readObject obj with phase := .claimed .fresh obj heard }) : Once W' := by
  have hev := hi.evolves_after (some (.claimDelivered (ct.info obj))) cache
  obtain ⟨hnot, hsettled⟩ : ¬ W.entry.ledger.Settled ⟨ct.key.group, ct.objectID⟩ ∧
      (W.entry.after (some (.claimDelivered (ct.info obj))) cache).ledger.Settled
        ⟨ct.key.group, ct.objectID⟩ :=
    Ledger.settled_of_fresh (Ledger.claimDelivered_step (Prod.ext rfl h))
  have hnew : (ct.key, ct.objectID) ∉ W.freshClaimed := fun hmem => hnot (hi.settled _ _ hmem)
  have hunaged : W.entry.ledger.agesOut ct.key.group ≠ true := fun hage => hnot (.inl hage)
  have hunsent : (ct.key, ct.objectID) ∉ W.forwards :=
    fun hmem => hunaged (hi.aged _ _ hmem hnew).1
  -- what is pending is the new claim, or was pending before
  have hpend : ∀ c' k id, W'.PendingFresh c' k id →
      c' = c ∧ k = ct.key ∧ id = ct.objectID ∨ W.PendingFresh c' k id := by
    rintro c' k id ⟨ct', claim, obj', heard', hc', hrest⟩
    rw [hW'] at hc'
    rcases contribs_putContrib hc' with ⟨rfl, rfl⟩ | ⟨-, hc'⟩
    · exact .inl ⟨rfl, hrest.2.2.1.symm, hrest.2.2.2.symm⟩
    · exact .inr ⟨ct', claim, obj', heard', hc', hrest⟩
  subst hW'
  refine ⟨hatt, hev.1, hi.ordered, ?_, ?_, ?_, ?_, hi.nodup, ?_⟩
  · intro k id hmem
    rcases List.mem_cons.mp hmem with heq | hmem
    · cases heq
      exact hsettled
    · exact (hi.settled k id hmem).evolves hev.2
  · intro c' k id hp
    rcases hpend c' k id hp with ⟨-, rfl, rfl⟩ | hp
    · exact ⟨.head _, hunsent⟩
    · obtain ⟨hmem, hfwd⟩ := hi.pending c' k id hp
      exact ⟨.tail _ hmem, hfwd⟩
  · intro c' c'' k id h' h''
    rcases hpend c' k id h' with ⟨hc', hk, hid⟩ | h' <;>
      rcases hpend c'' k id h'' with ⟨hc'', hk', hid'⟩ | h''
    · rw [hc', hc'']
    · rw [hk, hid] at h''
      exact absurd (hi.pending c'' _ _ h'').1 hnew
    · rw [hk', hid'] at h'
      exact absurd (hi.pending c' _ _ h').1 hnew
    · exact hi.pending_inj c' c'' k id h' h''
  · intro c' ct' obj' heard' hc' hp
    rcases contribs_putContrib hc' with ⟨-, rfl⟩ | ⟨-, hc'⟩
    · cases hp
    · exact hev.2.aged _ (hi.pending_aged c' ct' obj' heard' hc' hp)
  · intro k id hmem hfresh
    obtain ⟨hage, hset⟩ := hi.aged k id hmem (fun h => hfresh (.tail _ h))
    refine ⟨hev.2.aged _ hage, ?_⟩
    intro i refs hl
    refine ⟨(hset i refs hl).1, ?_⟩
    intro hnone c' id' hp
    rcases hpend c' k id' hp with ⟨-, rfl, -⟩ | hp
    · exact hunaged hage
    · exact (hset i refs hl).2 hnone c' id' hp

/-- **Forwarding**: a fresh claim is used up; an aged-out Object was not forwarded before. -/
theorem forwards {claim : Claim} {obj : SubgroupObject}
    {heard : Heard} {s' : WriterSet} {cache : ObjectCache}
    {handed : SetID → SubID → List (SubgroupKey × UInt64)} (hc : W.contribs c = some ct)
    (hp : ct.phase = .claimed claim obj heard)
    (hadm : claim = .agedOut → (W.sets ct.set).hasRun = true ∧
      (W.sets ct.set).runHi < ct.objectID ∧ (ct.key, ct.objectID) ∉ W.freshClaimed)
    (hs' : s'.hasRun = true ∧ s'.runLo ≤ s'.runHi ∧ ct.objectID ≤ s'.runHi ∧
      ((W.sets ct.set).hasRun = true → (W.sets ct.set).runHi ≤ s'.runHi))
    (hW' : W' = { (W.putContrib c { ct with phase := .loop }).putSet ct.set s' with
      entry := W.entry.after none cache
      forwards := (ct.key, ct.objectID) :: W.forwards
      handed := handed }) : Once W' := by
  obtain ⟨hhas, hle, hid, hmono⟩ := hs'
  obtain ⟨refs₀, hl₀⟩ := hi.attached.live c _ _ (seat_of hc (by simp [hp]))
  have hown : claim ≠ .agedOut → W.PendingFresh c ct.key ct.objectID :=
    fun hne => ⟨ct, claim, obj, heard, hc, hp, hne, rfl, rfl⟩
  have hunsent : (ct.key, ct.objectID) ∉ W.forwards := by
    by_cases hclaim : claim = .agedOut
    · obtain ⟨hhas₀, hlt, hfresh⟩ := hadm hclaim
      intro hmem
      have := ((hi.aged _ _ hmem hfresh).2 _ _ hl₀).1 hhas₀
      exact absurd hlt (UInt64.not_lt.mpr this)
    · exact (hi.pending c _ _ (hown hclaim)).2
  have hpend : ∀ c' k id, W'.PendingFresh c' k id → c' ≠ c ∧ W.PendingFresh c' k id := by
    rintro c' k id ⟨ct', claim', obj', heard', hc', hp', hrest⟩
    rw [hW'] at hc'
    rcases contribs_putContrib hc' with ⟨-, rfl⟩ | ⟨hcc, hc'⟩
    · cases hp'
    · exact ⟨hcc, ct', claim', obj', heard', hc', hp', hrest⟩
  subst hW'
  refine ⟨hatt, hi.wf, ?_, hi.settled, ?_, ?_, ?_, List.nodup_cons.mpr ⟨hunsent, hi.nodup⟩, ?_⟩
  · exact (forall_update_iff W.sets fun _ s => s.runLo ≤ s.runHi).mpr
      ⟨hle, fun i _ => hi.ordered i⟩
  · intro c' k id hp'
    obtain ⟨hcc, hp'⟩ := hpend c' k id hp'
    obtain ⟨hmem, hfwd⟩ := hi.pending c' k id hp'
    refine ⟨hmem, ?_⟩
    intro hin
    rcases List.mem_cons.mp hin with heq | hin
    · cases heq
      by_cases hclaim : claim = .agedOut
      · exact (hadm hclaim).2.2 hmem
      · exact hcc (hi.pending_inj c' c _ _ hp' (hown hclaim))
    · exact hfwd hin
  · intro c' c'' k id h' h''
    exact hi.pending_inj c' c'' k id (hpend c' k id h').2 (hpend c'' k id h'').2
  · intro c' ct' obj' heard' hc' hp'
    rcases contribs_putContrib hc' with ⟨-, rfl⟩ | ⟨-, hc'⟩
    · cases hp'
    · exact hi.pending_aged c' ct' obj' heard' hc' hp'
  · intro k id hmem hfresh
    by_cases hnew : (k, id) = (ct.key, ct.objectID)
    · cases hnew
      have hclaim : claim = .agedOut := by
        by_contra hne
        exact hfresh (hi.pending c _ _ (hown hne)).1
      subst hclaim
      refine ⟨hi.pending_aged c ct obj heard hc hp, ?_⟩
      intro i refs hl
      cases hl₀.symm.trans hl
      simp only [putSet, update_self]
      exact ⟨fun _ => hid, fun h => Bool.noConfusion (hhas.symm.trans h)⟩
    · have hmem : (k, id) ∈ W.forwards := (List.mem_cons.mp hmem).resolve_left hnew
      obtain ⟨hage, hset⟩ := hi.aged k id hmem hfresh
      refine ⟨hage, ?_⟩
      intro i refs hl
      by_cases hii : i = ct.set
      · -- the set that forwards: its run was there, or the Object was not a fresh claim
        subst hii
        cases hi.attached.inj _ _ _ _ hl hl₀ rfl
        simp only [putSet, update_self]
        refine ⟨fun _ => ?_, fun h => Bool.noConfusion (hhas.symm.trans h)⟩
        cases hrun : (W.sets ct.set).hasRun with
        | true => exact UInt64.le_trans ((hset _ _ hl).1 hrun) (hmono hrun)
        | false =>
          by_cases hclaim : claim = .agedOut
          · exact Bool.noConfusion ((hadm hclaim).1.symm.trans hrun)
          · exact absurd (hown hclaim) ((hset _ _ hl).2 hrun c _)
      · simp only [putSet, update_of_ne hii]
        refine ⟨(hset i refs hl).1, ?_⟩
        intro hnone c' id' hp'
        exact (hset i refs hl).2 hnone c' id' (hpend c' k id' hp').2

end

end Once

/-! ## Whole runs -/

/-- The Object of an aged-out Group that `forward` is about to admit, above its set's run, was
    claimed fresh by no contributor of its Subgroup. -/
def AgedOutUnclaimed (W : World) : Action → Prop
  | .forward c _ _ => ∀ ct ∈ W.contribs c, ct.phase.offersAgedOut = true →
    (W.sets ct.set).hasRun = true → (W.sets ct.set).runHi < ct.objectID →
      (ct.key, ct.objectID) ∉ W.freshClaimed
  | _ => True

instance (W : World) (a : Action) : Decidable (W.AgedOutUnclaimed a) := by
  apply a.casesOn (motive := fun a => Decidable (W.AgedOutUnclaimed a)) <;> intros <;>
    dsimp only [AgedOutUnclaimed] <;> infer_instance

theorem Once.step {W W' : World} {a : Action} (hi : Once W) (hok : W.AgedOutUnclaimed a)
    (h : Step W a W') : Once W' := by
  have hatt := hi.attached.step h
  have hsame : ∀ k i refs, W.entry.subgroups.lookup k = some ⟨i, refs⟩ →
      ∃ refs', W.entry.subgroups.lookup k = some ⟨i, refs'⟩ := fun _ _ refs hl => ⟨refs, hl⟩
  cases h with
  | joins hc hl => exact hi.joins hatt hl rfl rfl
  | makes hc hl => exact hi.makes hatt hl rfl rfl
  | moves hc hp hhdr hset hp' _ =>
    exact hi.frame hatt (hi.evolves_after _ _) (fun _ => rfl) hsame
      (putContrib_cases (Once.quiet_aged hp')) rfl rfl
  | openInitial hc hp =>
    exact hi.frame hatt ⟨hi.wf, .refl _⟩
      (Once.run_putSet (WriterSet.openInitial_run _ _ _ _ _ _)) hsame
      (putContrib_cases (Once.quiet_aged rfl)) rfl rfl
  | @header c ct id obj established hc hp =>
    obtain ⟨_, _, subs, gen, noted, s, hs, -, -, h⟩ := W.headerRead_eq c ct id obj established
    rw [h] at hatt ⊢
    have hfacts := (W.sets ct.set).headerRead_facts W.cfg established subs gen id s.opened
    rw [← hs] at hfacts
    exact hi.frame hatt ⟨hi.wf, .refl _⟩ (Once.run_putSet (congrArg WriterSet.run hfacts :)) hsame
      (putContrib_cases nofun) rfl rfl
  | @claimAgedOut c ct now obj heard cache hc hp h =>
    refine hi.frame hatt (hi.evolves_after _ _) (fun _ => rfl) hsame (putContrib_cases ?_) rfl rfl
    intro claim obj' heard' hp'
    cases hp'
    have hage : W.entry.ledger.agesOut ct.key.group = true := by
      obtain ⟨e', he'⟩ : ∃ e', W.entry.ledger.claimDelivered (ct.info obj) = (e', .agedOut, none) :=
        ⟨_, Prod.ext rfl h⟩
      cases Ledger.claimDelivered_step he' with
      | agedOut hage => exact hage
    exact ⟨rfl, (hi.evolves_after _ cache).2.aged _ hage⟩
  | claimFresh hc hp h => exact hi.claimFresh hatt h rfl
  | @done c ct leaves hc hp =>
    refine hi.frame hatt ⟨hi.wf, .refl _⟩ (Once.run_putSet rfl) hsame
      (putContrib_cases (Once.quiet_aged ?_)) rfl rfl
    cases leaves <;> rfl
  | @drops c ct now verdict claim obj heard s hc hp hadm =>
    have hrun : s.run = (W.sets ct.set).run :=
      (congrArg WriterSet.run (WriterSet.admitAgedOut_facts hadm) :)
    exact hi.frame hatt ⟨hi.wf, .refl _⟩ (Once.run_putSet hrun) hsame
      (putContrib_cases (Once.quiet_aged rfl)) rfl rfl
  | @forwards c ct now verdict claim obj heard s cache hc hp hs hadm =>
    have hrun := @WriterSet.forward_run s (hs ▸ hi.ordered ct.set) verdict ⟨c, ct.seq⟩ ct.objectID
      obj ct.isTrueFirst heard.count
    refine hi.forwards hatt hc hp ?_ (hs ▸ hrun) rfl
    subst hs
    intro hclaim
    subst hclaim
    obtain ⟨hhas, hlt⟩ := hadm rfl
    refine ⟨hhas, hlt, ?_⟩
    exact hok ct hc (by rw [hp]; rfl) hhas hlt
  | @leave c ct oor hc hp =>
    have hl : (W.leave c ct oor).entry.ledger = W.entry.ledger :=
      W.entry.releaseSubgroup_ledger ct.key
    refine hi.frame hatt ?_ (Once.run_putSet (i := ct.set) ?_)
      (fun k i refs => TrackEntry.releaseSubgroup_lookup) (putContrib_cases ?_) rfl rfl
    · rw [hl]
      exact ⟨hi.wf, .refl _⟩
    · refine Eq.trans ?_
        ((W.sets ct.set).leave_run ct.inboundReset ct.inboundResetCode ct.covers ct.coverFrom)
      split_ifs <;> rfl
    · intro claim obj heard hp'
      cases hp'
  | register hsub =>
    exact hi.frame hatt ⟨hi.wf, .refl _⟩ (fun _ => rfl) hsame (fun _ _ h => .inl h) rfl rfl
  | others =>
    exact hi.frame hatt (hi.evolves_after _ _) (fun _ => rfl) hsame (fun _ _ h => .inl h) rfl rfl
  | dequeue | finish =>
    exact hi.frame hatt ⟨hi.wf, .refl _⟩ (Once.run_putSet rfl) hsame (fun _ _ h => .inl h) rfl rfl

/-- **No Object is forwarded twice**, in any interleaving of any number of contributors in which
    no aged-out Object is admitted that was claimed fresh before. -/
theorem forwards_nodup {cfg : WriterSet.Config} {cache : ObjectCache} {as : List Action}
    {W : World} (hok : Lib.Along step AgedOutUnclaimed (init cfg cache) as)
    (hrun : Lib.run step (init cfg cache) as = some W) : W.forwards.Nodup := by
  have hstep : ∀ W a W', Once W → W.AgedOutUnclaimed a → W.step a = some W' → Once W' :=
    fun W a W' hi ha h => hi.step ha (step_of h)
  exact (Lib.run_inv_along hstep (.init cfg cache) hok hrun).nodup

/-- Datagrams of Groups 1 to 32, which age Group 0 out of the ledger. -/
def ageing : List Action :=
  (List.range 32).map fun g =>
    .datagram 0 (.claimDelivered { group := .ofNat (g + 1), object := 0, datagram := true })

theorem forwards_nodup_aged :
    (Lib.run step (init ⟨8, 0⟩ (.new 0 0))
        (opening 0 {} ++ reading 0 0 ++ ageing ++ reading 0 1)).map World.forwards =
      some [(⟨0, 0⟩, 1), (⟨0, 0⟩, 0)] ∧
    ∀ W, Lib.run step (init ⟨8, 0⟩ (.new 0 0))
        (opening 0 {} ++ reading 0 0 ++ ageing ++ reading 0 1) = some W → W.forwards.Nodup := by
  refine ⟨by decide +kernel, ?_⟩
  intro W hrun
  exact forwards_nodup (by decide +kernel) hrun

/-- The first contributor forwards Object 10 and leaves; the second, alone on a set of its own,
    reads Object 10 once Group 0 has aged out, and it is above all the new set knows. -/
theorem forwarded_twice :
    (Lib.run step (init ⟨8, 0⟩ (.new 0 0))
        (opening 0 {} ++ reading 0 10 ++ [.fail 0 false, .leave 0 fun _ => false] ++
          opening 1 {} ++ reading 1 0 ++ ageing ++ reading 1 10)).map World.forwards =
      some [(⟨0, 0⟩, 10), (⟨0, 0⟩, 0), (⟨0, 0⟩, 10)] := by
  decide +kernel

end World
end MoqGo.Relay
