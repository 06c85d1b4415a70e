import MoqGo.Relay.Fanout.Steps

/-!
# Who is attached to which set

The registry keeps, for each Subgroup with inbound streams, the shared set and a count of them
(`AcquireSubgroup`, `ReleaseSubgroup`), and forgets the set with the last. So **every
contributor that has not left works on the set the registry has for its Subgroup**, and the one
that finds the count at its last is alone. That is what `Attached` says; only the two
operations matter to it, and `Step.frame` disposes of every other step.
-/

namespace MoqGo.Relay

open Message

namespace World

def seat (W : World) (c : ContribID) : Option (SubgroupKey × SetID) :=
  (W.contribs c).bind fun ct => if ct.phase = .left then none else some (ct.key, ct.set)

theorem seat_of {W : World} {c : ContribID} {ct : Contributor} (hc : W.contribs c = some ct)
    (hp : ct.phase ≠ .left) : W.seat c = some (ct.key, ct.set) := by
  simp [seat, hc, hp]

theorem seat_putContrib (W : World) (c c' : ContribID) (ct : Contributor) :
    (W.putContrib c ct).seat c' =
      if c' = c then (if ct.phase = .left then none else some (ct.key, ct.set)) else W.seat c' := by
  by_cases h : c' = c
  · subst h
    simp [seat, putContrib]
  · simp [seat, putContrib, h]

theorem seat_putContrib_of {W : World} {c : ContribID} {ct ct' : Contributor}
    (hc : W.contribs c = some ct) (hp : ct.phase ≠ .left) (hp' : ct'.phase ≠ .left)
    (hhdr : ct'.hdr = ct.hdr) (hset : ct'.set = ct.set) (c' : ContribID) :
    (W.putContrib c ct').seat c' = W.seat c' := by
  rw [seat_putContrib]
  split_ifs with h
  · subst h
    rw [seat_of hc hp, Contributor.key, Contributor.key, hhdr, hset]
  · rfl

/-- What the registry holds agrees with who is there. -/
structure Attached (W : World) : Prop where
  /-- A contributor works on the set the registry has for its Subgroup. -/
  live : ∀ c k i, W.seat c = some (k, i) → ∃ refs, W.entry.subgroups.lookup k = some ⟨i, refs⟩
  /-- The count is that of the contributors. -/
  counted : ∀ k sg, W.entry.subgroups.lookup k = some sg →
    ∃ l : List ContribID, l.Nodup ∧ l.length = sg.refs ∧ ∀ c, c ∈ l ↔ W.seat c = some (k, sg.set)
  bound : ∀ k sg, W.entry.subgroups.lookup k = some sg → sg.set < W.nextSet
  /-- Subgroups do not share a set. -/
  inj : ∀ k k' sg sg', W.entry.subgroups.lookup k = some sg →
    W.entry.subgroups.lookup k' = some sg' → sg.set = sg'.set → k = k'

namespace Attached

theorem init (cfg : WriterSet.Config) (cache : ObjectCache) : Attached (init cfg cache) := by
  refine ⟨?_, ?_, ?_, ?_⟩
  · intro c k i h
    simp [seat, World.init] at h
  all_goals
    intros
    simp_all [World.init]

theorem seat_ne {W : World} (h : Attached W) {c : ContribID} {k : SubgroupKey} {i : SetID}
    (hi : W.nextSet ≤ i) : W.seat c ≠ some (k, i) := by
  intro hc
  obtain ⟨refs, hk⟩ := h.live c k i hc
  exact absurd (h.bound k _ hk) (Nat.not_lt.mpr hi)

theorem frame {W W' : World} (h : Attached W) (hseat : ∀ c, W'.seat c = W.seat c)
    (hsub : W'.entry.subgroups = W.entry.subgroups) (hnext : W'.nextSet = W.nextSet) :
    Attached W' := by
  refine ⟨?_, ?_, ?_, ?_⟩
  · simpa only [hseat, hsub] using h.live
  · simpa only [hseat, hsub] using h.counted
  · simpa only [hsub, hnext] using h.bound
  · simpa only [hsub] using h.inj

end Attached

variable {W W' : World} {c : ContribID}

theorem seat_eq_none (h : W.contribs c = none) : W.seat c = none := by
  simp [seat, h]

/-- One contributor sits down at Subgroup `k₀` or gets up, and the registry changes there alone. -/
theorem Attached.change (h : Attached W) (k₀ : SubgroupKey)
    (hothers : ∀ c', c' ≠ c → W'.seat c' = W.seat c')
    (hc : ∀ k i, k ≠ k₀ → W.seat c ≠ some (k, i) ∧ W'.seat c ≠ some (k, i))
    (hlook : ∀ k, k ≠ k₀ → W'.entry.subgroups.lookup k = W.entry.subgroups.lookup k)
    (hnext : W.nextSet ≤ W'.nextSet)
    (hlive : ∀ c' i, W'.seat c' = some (k₀, i) →
      ∃ refs, W'.entry.subgroups.lookup k₀ = some ⟨i, refs⟩)
    (hat : ∀ sg, W'.entry.subgroups.lookup k₀ = some sg → sg.set < W'.nextSet ∧
      (W.nextSet ≤ sg.set ∨ ∃ refs, W.entry.subgroups.lookup k₀ = some ⟨sg.set, refs⟩) ∧
      ∃ l : List ContribID, l.Nodup ∧ l.length = sg.refs ∧
        ∀ c', c' ∈ l ↔ W'.seat c' = some (k₀, sg.set)) : Attached W' := by
  have hseat : ∀ c' k i, k ≠ k₀ → (W'.seat c' = some (k, i) ↔ W.seat c' = some (k, i)) := by
    intro c' k i hk
    by_cases hcc : c' = c
    · subst hcc
      exact iff_of_false (hc k i hk).2 (hc k i hk).1
    · rw [hothers c' hcc]
  -- no other Subgroup has the set of `k₀`
  have hne : ∀ k sg sg', k ≠ k₀ → W'.entry.subgroups.lookup k₀ = some sg →
      W'.entry.subgroups.lookup k = some sg' → sg.set ≠ sg'.set := by
    intro k sg sg' hk hsg hsg' heq
    rw [hlook k hk] at hsg'
    rcases (hat sg hsg).2.1 with hfresh | ⟨refs, hold⟩
    · exact absurd (h.bound k sg' hsg') (Nat.not_lt.mpr (heq ▸ hfresh))
    · exact hk (h.inj _ _ _ _ hsg' hold heq.symm)
  refine ⟨?_, ?_, ?_, ?_⟩
  · intro c' k i hk
    by_cases hkk : k = k₀
    · subst hkk
      exact hlive c' i hk
    · rw [hlook k hkk]
      exact h.live c' k i ((hseat c' k i hkk).mp hk)
  · intro k sg hk
    by_cases hkk : k = k₀
    · subst hkk
      exact (hat sg hk).2.2
    · rw [hlook k hkk] at hk
      obtain ⟨l, hnd, hlen, hmem⟩ := h.counted k sg hk
      exact ⟨l, hnd, hlen, fun c' => (hmem c').trans (hseat c' k sg.set hkk).symm⟩
  · intro k sg hk
    by_cases hkk : k = k₀
    · subst hkk
      exact (hat sg hk).1
    · rw [hlook k hkk] at hk
      exact Nat.lt_of_lt_of_le (h.bound k sg hk) hnext
  · intro k k' sg sg' hk hk' heq
    by_cases hkk : k = k₀
    · subst hkk
      by_contra hkk'
      exact hne k' sg sg' (Ne.symm hkk') hk hk' heq
    · by_cases hkk' : k' = k₀
      · subst hkk'
        exact absurd heq.symm (hne k sg' sg hkk hk' hk)
      · rw [hlook k hkk] at hk
        rw [hlook k' hkk'] at hk'
        exact h.inj k k' sg sg' hk hk' heq

theorem Attached.joins (h : Attached W) (hc : W.contribs c = none) {k₀ : SubgroupKey}
    {sg : SharedSubgroup SetID} (hl : W.entry.subgroups.lookup k₀ = some sg)
    (hseat : ∀ c', W'.seat c' = if c' = c then some (k₀, sg.set) else W.seat c')
    (hsub : W'.entry.subgroups = W.entry.subgroups.insert k₀ { sg with refs := sg.refs + 1 })
    (hnext : W'.nextSet = W.nextSet) : Attached W' := by
  have hnone := seat_eq_none hc
  have hlook : W'.entry.subgroups.lookup k₀ = some { sg with refs := sg.refs + 1 } := by
    rw [hsub, AList.lookup_insert]
  refine h.change (c := c) k₀ (fun c' hcc => by rw [hseat, if_neg hcc]) ?_ ?_ hnext.ge ?_ ?_
  · intro k i hk
    rw [hnone, hseat, if_pos rfl]
    exact ⟨nofun, fun heq => hk (congrArg Prod.fst (Option.some.inj heq)).symm⟩
  · intro k hk
    rw [hsub, AList.lookup_insert_ne hk]
  · intro c' i hi
    rw [hseat] at hi
    split_ifs at hi
    · cases hi
      exact ⟨_, hlook⟩
    · obtain ⟨refs, hr⟩ := h.live c' _ i hi
      cases hl.symm.trans hr
      exact ⟨_, hlook⟩
  · intro sg' hk
    cases hlook.symm.trans hk
    obtain ⟨l, hnd, hlen, hmem⟩ := h.counted k₀ sg hl
    refine ⟨hnext ▸ h.bound k₀ sg hl, .inr ⟨_, hl⟩, c :: l, List.nodup_cons.mpr ⟨?_, hnd⟩, by
      simp [hlen], fun c' => ?_⟩
    · rw [hmem, hnone]
      exact nofun
    · rw [hseat, List.mem_cons, hmem]
      by_cases hcc : c' = c <;> simp [hcc]

theorem Attached.makes (h : Attached W) (hc : W.contribs c = none) {k₀ : SubgroupKey}
    (hl : W.entry.subgroups.lookup k₀ = none)
    (hseat : ∀ c', W'.seat c' = if c' = c then some (k₀, W.nextSet) else W.seat c')
    (hsub : W'.entry.subgroups = W.entry.subgroups.insert k₀ ⟨W.nextSet, 1⟩)
    (hnext : W'.nextSet = W.nextSet + 1) : Attached W' := by
  have hlook : W'.entry.subgroups.lookup k₀ = some ⟨W.nextSet, 1⟩ := by
    rw [hsub, AList.lookup_insert]
  -- nobody else is there
  have honly : ∀ c' i, W'.seat c' = some (k₀, i) ↔ c' = c ∧ i = W.nextSet := by
    intro c' i
    rw [hseat]
    split_ifs with hcc
    · simp [hcc, eq_comm]
    · refine ⟨fun hi => ?_, fun hi => absurd hi.1 hcc⟩
      obtain ⟨refs, hr⟩ := h.live c' _ i hi
      cases hl.symm.trans hr
  refine h.change (c := c) k₀ (fun c' hcc => by rw [hseat, if_neg hcc]) ?_ ?_
    (hnext ▸ Nat.le_succ _) ?_ ?_
  · intro k i hk
    rw [seat_eq_none hc, hseat, if_pos rfl]
    exact ⟨nofun, fun heq => hk (congrArg Prod.fst (Option.some.inj heq)).symm⟩
  · intro k hk
    rw [hsub, AList.lookup_insert_ne hk]
  · intro c' i hi
    obtain ⟨-, rfl⟩ := (honly c' i).mp hi
    exact ⟨1, hlook⟩
  · intro sg hk
    cases hlook.symm.trans hk
    refine ⟨hnext ▸ Nat.lt_succ_self _, .inl (Nat.le_refl _), [c], List.nodup_singleton c, rfl,
      fun c' => ?_⟩
    rw [honly, List.mem_singleton]
    simp

theorem seat_leave {ct : Contributor} {oor : SubID → Bool} (c' : ContribID) :
    (W.leave c ct oor).seat c' = if c' = c then none else W.seat c' :=
  (seat_putContrib W c c' { ct with phase := .left }).trans (by simp)

theorem Attached.leave (h : Attached W) {ct : Contributor} (hc : W.contribs c = some ct)
    (hp : ct.phase = .ended) (oor : SubID → Bool) : Attached (W.leave c ct oor) := by
  have hseat := @seat_leave W c ct oor
  have hown : W.seat c = some (ct.key, ct.set) := seat_of hc (by simp [hp])
  obtain ⟨refs, hl⟩ := h.live c _ _ hown
  obtain ⟨l, hnd, hlen, hmem⟩ := h.counted ct.key _ hl
  have hcl := (hmem c).mpr hown
  -- who stays
  have hstay : ∀ c', c' ∈ l.erase c ↔ (W.leave c ct oor).seat c' = some (ct.key, ct.set) := by
    intro c'
    rw [hnd.mem_erase_iff, hmem, hseat]
    split_ifs with hcc <;> simp [hcc]
  have hset : ∀ c' i, (W.leave c ct oor).seat c' = some (ct.key, i) → i = ct.set := by
    intro c' i hi
    rw [hseat] at hi
    split_ifs at hi
    obtain ⟨refs', hr⟩ := h.live c' _ i hi
    cases hl.symm.trans hr
    rfl
  have hentry : (W.leave c ct oor).entry = (W.entry.releaseSubgroup ct.key).1 := rfl
  have hfree : ∀ k i, k ≠ ct.key →
      W.seat c ≠ some (k, i) ∧ (W.leave c ct oor).seat c ≠ some (k, i) := by
    intro k i hk
    rw [hown, hseat, if_pos rfl]
    exact ⟨fun heq => hk (congrArg Prod.fst (Option.some.inj heq)).symm, nofun⟩
  have hothers : ∀ c', c' ≠ c → (W.leave c ct oor).seat c' = W.seat c' :=
    fun c' hcc => by rw [hseat, if_neg hcc]
  by_cases hlast : refs ≤ 1
  · have hsub : (W.leave c ct oor).entry.subgroups = W.entry.subgroups.erase ct.key := by
      simp [hentry, TrackEntry.releaseSubgroup, hl, hlast]
    refine h.change ct.key hothers hfree ?_ (Nat.le_refl _) ?_ ?_
    · intro k hk
      rw [hsub, AList.lookup_erase_ne hk]
    · -- the last contributor of a set is alone on it
      intro c' i hi
      have hmem' := (hstay c').mpr (hset c' i hi ▸ hi)
      have hpos := List.length_pos_of_mem hmem'
      rw [List.length_erase_of_mem hcl, hlen] at hpos
      exact absurd hpos (by show ¬ 0 < refs - 1; omega)
    · intro sg hk
      rw [hsub, AList.lookup_erase] at hk
      cases hk
  · have hlook : (W.leave c ct oor).entry.subgroups.lookup ct.key =
        some ⟨ct.set, refs - 1⟩ := by
      simp [hentry, TrackEntry.releaseSubgroup, hl, hlast]
    refine h.change ct.key hothers hfree ?_ (Nat.le_refl _) ?_ ?_
    · intro k hk
      simp [hentry, TrackEntry.releaseSubgroup, hl, hlast, AList.lookup_insert_ne hk]
    · intro c' i hi
      rw [hset c' i hi]
      exact ⟨_, hlook⟩
    · intro sg hk
      cases hlook.symm.trans hk
      refine ⟨h.bound ct.key ⟨ct.set, refs⟩ hl, .inr ⟨refs, hl⟩, l.erase c, hnd.erase c, ?_, hstay⟩
      rw [List.length_erase_of_mem hcl, hlen]

def Action.seats : Action → Bool
  | .acquire _ _ _ | .leave _ _ => true
  | _ => false

theorem quiet_ne_left {p : Phase} (h : p.quiet = true) : p ≠ .left := by
  rintro rfl
  cases h

theorem Step.frame {a : Action} (h : Step W a W') (ha : Action.seats a = false) :
    (∀ c, W'.seat c = W.seat c) ∧ W'.entry.subgroups = W.entry.subgroups ∧
      W'.nextSet = W.nextSet := by
  cases h with
  | joins | makes | leave => cases ha
  | moves hc hp hhdr hset hp' _ =>
    exact ⟨seat_putContrib_of hc hp (quiet_ne_left hp') hhdr hset, rfl, rfl⟩
  | openInitial hc hp => exact ⟨seat_putContrib_of hc (by simp [hp]) nofun rfl rfl, rfl, rfl⟩
  | @header c ct id obj established hc hp =>
    refine ⟨?_, ?_, rfl⟩
    · exact @seat_putContrib_of W c ct _ hc (by simp [hp]) nofun rfl rfl
    · obtain ⟨_, _, _, _, _, _, -, -, -, h⟩ := W.headerRead_eq c ct id obj established
      rw [h]
  | claimAgedOut hc hp _ => exact ⟨seat_putContrib_of hc (by simp [hp]) nofun rfl rfl, rfl, rfl⟩
  | claimFresh hc hp _ => exact ⟨seat_putContrib_of hc (by simp [hp]) nofun rfl rfl, rfl, rfl⟩
  | @done c ct leaves hc hp =>
    refine ⟨seat_putContrib_of hc (by simp [hp]) ?_ rfl rfl, rfl, rfl⟩
    cases leaves <;> exact nofun
  | drops hc hp _ => exact ⟨seat_putContrib_of hc (by simp [hp]) nofun rfl rfl, rfl, rfl⟩
  | forwards hc hp _ _ => exact ⟨seat_putContrib_of hc (by simp [hp]) nofun rfl rfl, rfl, rfl⟩
  | register | others | dequeue | finish => exact ⟨fun _ => rfl, rfl, rfl⟩

theorem Attached.step {a : Action} (hi : Attached W) (h : Step W a W') : Attached W' := by
  cases ha : Action.seats a with
  | false =>
    obtain ⟨hseat, hsub, hnext⟩ := h.frame ha
    exact hi.frame hseat hsub hnext
  | true =>
    cases h with
    | joins hc hl =>
      refine hi.joins hc hl (fun c' => (seat_putContrib _ _ c' _).trans ?_) rfl rfl
      rfl
    | makes hc hl =>
      refine hi.makes hc hl (fun c' => (seat_putContrib _ _ c' _).trans ?_) rfl rfl
      rfl
    | leave hc hp => exact hi.leave hc hp _
    | moves hc hp hhdr hset hp' _ =>
      exact hi.frame (seat_putContrib_of hc hp (quiet_ne_left hp') hhdr hset) rfl rfl
    | others => exact hi.frame (fun _ => rfl) rfl rfl
    | openInitial | header | claimAgedOut | claimFresh | done | drops | forwards | register
    | dequeue | finish => cases ha

end World
end MoqGo.Relay
