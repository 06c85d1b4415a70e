import MoqGo.Lib.Counts
import MoqGo.Lib.Runs
import MoqGo.Track.Key

/-!
# Inbound Track Aliases (`pkg/moqt/session/trackalias.go`)

Subscriptions may share an alias, so a session counts its registrations. A data stream may name
an alias before it is registered: `awaitInboundTrack` looks it up and waits on a channel that is
closed, and replaced, at each new alias. Channels are numbered: `aliasRegistered` is the open one,
and those before it are closed. `held` are the handles with `released` unset.
-/

namespace MoqGo.Session

open Function List Track

/-- `InboundTrack`: what an alias is bound to. -/
structure InboundTrack where
  key : Key
  defaultPublisherPriority : UInt8
  maxCacheDuration : Option Nat

/-- `requestHandle`, of a request that holds an alias. -/
structure Handle where
  id : Nat
  inboundAlias : UInt64
  key : Key
deriving DecidableEq

/-- A call of `awaitInboundTrack`. -/
inductive Await
  | idle
  | waiting (a : UInt64) (registered : Nat)
  | returned (track : Option InboundTrack)

/-- The part of a `Session` that inbound aliases are kept in. -/
structure Aliases where
  inboundAliases : UInt64 → Option InboundTrack := fun _ => none
  inboundAliasRefs : UInt64 → Nat := fun _ => 0
  aliasRegistered : Nat := 0
  closed : Bool := false
  calls : Nat → Await := fun _ => .idle
  nextHandle : Nat := 0
  held : List Handle := []

namespace Aliases

/-- `RegisterInboundTrack`: a handle, or the session is closed with DUPLICATE_TRACK_ALIAS. -/
def registerInboundTrack (s : Aliases) (a : UInt64) (t : InboundTrack) : Aliases :=
  let s' := { s with
    inboundAliases := update s.inboundAliases a (some t)
    nextHandle := s.nextHandle + 1
    held := ⟨s.nextHandle, a, t.key⟩ :: s.held }
  match s.inboundAliases a with
  | some existing =>
    if existing.key ≠ t.key then { s with closed := true }
    else { s' with inboundAliasRefs := update s.inboundAliasRefs a (s.inboundAliasRefs a + 1) }
  | none => { s' with
    inboundAliasRefs := update s.inboundAliasRefs a 1
    aliasRegistered := s.aliasRegistered + 1 }

/-- `UnregisterInboundTrackAlias`. -/
def unregisterInboundTrackAlias (s : Aliases) (a : UInt64) : Aliases :=
  if s.inboundAliasRefs a > 1 then
    { s with inboundAliasRefs := update s.inboundAliasRefs a (s.inboundAliasRefs a - 1) }
  else
    { s with
      inboundAliases := update s.inboundAliases a none
      inboundAliasRefs := update s.inboundAliasRefs a 0 }

/-- `requestHandle.terminated`: only the first call finds `released` unset. -/
def terminated (s : Aliases) (h : Handle) : Aliases :=
  if h ∈ s.held then
    { s.unregisterInboundTrackAlias h.inboundAlias with held := s.held.erase h }
  else s

inductive Action
  | register (a : UInt64) (t : InboundTrack)
  | terminated (h : Handle)
  /-- Call `i` of `awaitInboundTrack` looks for the first time. -/
  | await (i : Nat) (a : UInt64)
  /-- The channel it waits on is closed, and it looks again. -/
  | wake (i : Nat)
  | stop (i : Nat)

/-- `awaitInboundTrack`, under the lock. -/
def look (s : Aliases) (a : UInt64) : Await :=
  match s.inboundAliases a with
  | some t => .returned (some t)
  | none => .waiting a s.aliasRegistered

/-- Call `i` goes on as `f` says, if it can. -/
def advance (s : Aliases) (i : Nat) (f : Await → Option Await) : Option Aliases :=
  (f (s.calls i)).map fun c => { s with calls := update s.calls i c }

/-- A wait may `stop` at any time: its context ends, or the session closes. -/
def step (s : Aliases) : Action → Option Aliases
  | .register a t => some (s.registerInboundTrack a t)
  | .terminated h => some (s.terminated h)
  | .await i a => s.advance i fun
    | .idle => some (s.look a)
    | _ => none
  | .wake i => s.advance i fun
    | .waiting a ch => if ch < s.aliasRegistered then some (s.look a) else none
    | _ => none
  | .stop i => s.advance i fun
    | .waiting _ _ => some (.returned none)
    | _ => none

/-- A wait is on a closed channel, or for an alias that nothing has registered. -/
def Alert (s : Aliases) (c : Await) : Prop :=
  ∀ a ch, c = .waiting a ch →
    ch < s.aliasRegistered ∨ ch = s.aliasRegistered ∧ s.inboundAliases a = none

/-- What holds between any two steps. -/
structure Sound (s : Aliases) : Prop where
  refs : ∀ a, s.inboundAliasRefs a = s.held.countP (·.inboundAlias = a)
  bound : ∀ h ∈ s.held, ∃ t, s.inboundAliases h.inboundAlias = some t ∧ t.key = h.key
  free : ∀ a, s.inboundAliasRefs a = 0 → s.inboundAliases a = none
  alert : ∀ i, s.Alert (s.calls i)

variable {s s' : Aliases}

/-- An alias gets one more registration. If it had none, every wait so far is on a channel that is
    closed now. -/
theorem Sound.bind {a : UInt64} {t : InboundTrack} {n registered : Nat} (h : s.Sound)
    (hkey : ∀ t', s.inboundAliases a = some t' → t'.key = t.key)
    (hopen : s.aliasRegistered < registered ∨
      s.aliasRegistered = registered ∧ s.inboundAliases a ≠ none) :
    Sound { s with
      inboundAliases := update s.inboundAliases a (some t)
      inboundAliasRefs := update s.inboundAliasRefs a (s.inboundAliasRefs a + 1)
      aliasRegistered := registered
      nextHandle := n
      held := ⟨s.nextHandle, a, t.key⟩ :: s.held } := by
  refine ⟨fun b => ?_, fun g hg => ?_, fun b hb => ?_, fun i b ch hc => ?_⟩
  · by_cases hb : b = a
    · subst hb
      simp [h.refs]
    · simp [update_of_ne hb, h.refs, Ne.symm hb]
  · rcases mem_cons.mp hg with rfl | hg
    · exact ⟨t, update_self .., rfl⟩
    · obtain ⟨t', ht', hk⟩ := h.bound g hg
      by_cases ha : g.inboundAlias = a
      · rw [ha] at ht'
        rw [ha]
        exact ⟨t, update_self .., (hkey t' ht').symm.trans hk⟩
      · exact ⟨t', (update_of_ne ha ..).trans ht', hk⟩
  · dsimp only at hb ⊢
    by_cases hba : b = a
    · simp [hba] at hb
    · rw [update_of_ne hba] at hb ⊢
      exact h.free b hb
  · rcases hopen with hlt | ⟨rfl, hsome⟩
    · rcases h.alert i b ch hc with hch | ⟨rfl, -⟩
      · exact .inl (hch.trans hlt)
      · exact .inl hlt
    · refine (h.alert i b ch hc).imp_right fun ⟨heq, hnone⟩ => ⟨heq, ?_⟩
      have hne : b ≠ a := fun hba => hsome (hba ▸ hnone)
      exact (update_of_ne hne ..).trans hnone

theorem Sound.register (h : s.Sound) (a : UInt64) (t : InboundTrack) :
    (s.registerInboundTrack a t).Sound := by
  unfold registerInboundTrack
  split
  · next existing hfound =>
    split_ifs with hkey
    · exact ⟨h.refs, h.bound, h.free, h.alert⟩
    · refine h.bind (fun t' ht' => ?_) (.inr ⟨rfl, by simp [hfound]⟩)
      cases hfound.symm.trans ht'
      exact of_not_not hkey
  · next hnone =>
    have hzero : s.inboundAliasRefs a = 0 := by
      rw [h.refs, countP_eq_zero]
      intro g hg ha
      obtain ⟨t', ht', -⟩ := h.bound g hg
      cases hnone.symm.trans (of_decide_eq_true ha ▸ ht')
    have hbind := h.bind (t := t) (n := s.nextHandle + 1)
      (fun t' ht' => by cases hnone.symm.trans ht') (.inl s.aliasRegistered.lt_succ_self)
    rwa [hzero] at hbind

theorem unregister_eq (s : Aliases) (a : UInt64) : s.unregisterInboundTrackAlias a = { s with
    inboundAliases :=
      fun b => if b = a ∧ s.inboundAliasRefs a ≤ 1 then none else s.inboundAliases b
    inboundAliasRefs := update s.inboundAliasRefs a (s.inboundAliasRefs a - 1) } := by
  unfold unregisterInboundTrackAlias
  split_ifs with hmore
  · simp [Nat.not_le.mpr hmore]
  · have hle := Nat.not_lt.mp hmore
    simp [hle, Nat.sub_eq_zero_of_le hle, update, funext_iff]

theorem Sound.terminated (h : s.Sound) (g : Handle) : (s.terminated g).Sound := by
  unfold Aliases.terminated
  split_ifs with hg
  · have hcount (b : UInt64) : (s.held.erase g).countP (·.inboundAlias = b) +
        (decide (g.inboundAlias = b)).toNat = s.inboundAliasRefs b := by
      rw [h.refs, Lib.countP_erase_add hg]
    have hsame := hcount g.inboundAlias
    rw [decide_eq_true rfl, Bool.toNat_true] at hsame
    rw [unregister_eq]
    refine ⟨fun b => ?_, fun k hk => ?_, fun b hb => ?_, fun i b ch hc => ?_⟩
    · by_cases hb : b = g.inboundAlias
      · rw [hb]
        exact (update_self ..).trans (Nat.sub_eq_of_eq_add hsame.symm)
      · exact (update_of_ne hb ..).trans (by simpa [Ne.symm hb] using (hcount b).symm)
    · obtain ⟨t, ht, hkey⟩ := h.bound k (mem_of_mem_erase hk)
      refine ⟨t, (if_neg ?_).trans ht, hkey⟩
      -- the alias of a handle that is left has another registration
      rintro ⟨heq, hle⟩
      have hpos : 0 < (s.held.erase g).countP (·.inboundAlias = g.inboundAlias) :=
        countP_pos_iff.mpr ⟨k, hk, decide_eq_true heq⟩
      omega
    · by_cases hba : b = g.inboundAlias
      · have hle : s.inboundAliasRefs g.inboundAlias - 1 = 0 := by simpa [hba] using hb
        exact if_pos ⟨hba, by omega⟩
      · have hfree := h.free b ((update_of_ne hba ..).symm.trans hb)
        exact (if_neg fun hgone => hba hgone.1).trans hfree
    · refine (h.alert i b ch hc).imp_right fun ⟨heq, hnone⟩ => ⟨heq, ?_⟩
      simp [hnone]
  · exact h

theorem Sound.advance {i : Nat} {f : Await → Option Await} (h : s.Sound)
    (hs : s.advance i f = some s') (hf : ∀ c, f (s.calls i) = some c → s.Alert c) : s'.Sound := by
  obtain ⟨c, hc, rfl⟩ := Option.map_eq_some_iff.mp hs
  refine ⟨h.refs, h.bound, h.free, fun j => ?_⟩
  dsimp only
  by_cases hj : j = i
  · rw [hj, update_self]
    exact hf c hc
  · rw [update_of_ne hj]
    exact h.alert j

theorem alert_look (s : Aliases) (a : UInt64) : s.Alert (s.look a) := by
  intro b ch hc
  unfold look at hc
  split at hc
  · cases hc
  · next hnone =>
    cases hc
    exact .inr ⟨rfl, hnone⟩

theorem Sound.step (x : Action) (h : s.Sound) (hs : s.step x = some s') : s'.Sound := by
  cases x with
  | register a t =>
    cases hs
    exact h.register a t
  | terminated g =>
    cases hs
    exact h.terminated g
  | await i a =>
    rw [Aliases.step] at hs
    refine h.advance hs fun c hc => ?_
    split at hc
    · cases hc
      exact s.alert_look a
    · cases hc
  | wake i =>
    rw [Aliases.step] at hs
    refine h.advance hs fun c hc => ?_
    split at hc
    · obtain ⟨-, rfl⟩ := Lib.guard_iff.mp hc
      exact s.alert_look _
    · cases hc
  | stop i =>
    rw [Aliases.step] at hs
    refine h.advance hs fun c hc => ?_
    split at hc
    · cases hc
      exact nofun
    · cases hc

theorem sound_run {acts : List Action} (hrun : Lib.run step {} acts = some s) : s.Sound :=
  Lib.run_inv (fun _ x _ => Sound.step x)
    ⟨fun _ => rfl, by simp, fun _ _ => rfl, fun _ _ _ hc => by cases hc⟩ hrun

/-- **Aliases follow their handles.** After any run an alias is bound while a handle holds it, to
    the one track of all its handles; and a wait for an alias that is bound can go on. -/
theorem aliases_follow_handles {acts : List Action} (hrun : Lib.run step {} acts = some s) :
    (∀ a k, (∃ t, s.inboundAliases a = some t ∧ t.key = k) ↔
      ∃ h ∈ s.held, h.inboundAlias = a ∧ h.key = k) ∧
    ∀ i a ch t, s.calls i = .waiting a ch → s.inboundAliases a = some t →
      ∃ s', s.step (.wake i) = some s' ∧ s'.calls i = .returned (some t) := by
  have h := sound_run hrun
  refine ⟨fun a k => ⟨?_, ?_⟩, fun i a ch t hwait hbound => ?_⟩
  · rintro ⟨t, ht, rfl⟩
    have hpos : 0 < s.held.countP (·.inboundAlias = a) := by
      rw [← h.refs]
      refine Nat.pos_of_ne_zero fun hzero => ?_
      cases (h.free a hzero).symm.trans ht
    obtain ⟨g, hg, ha⟩ := countP_pos_iff.mp hpos
    obtain ⟨t', ht', hk⟩ := h.bound g hg
    rw [of_decide_eq_true ha, ht] at ht'
    cases ht'
    exact ⟨g, hg, of_decide_eq_true ha, hk.symm⟩
  · rintro ⟨g, hg, rfl, rfl⟩
    exact h.bound g hg
  · have hclosed : ch < s.aliasRegistered :=
      (h.alert i a ch hwait).resolve_right fun hnone => by cases hbound.symm.trans hnone.2
    have hgo : s.step (.wake i) = some { s with
        calls := update s.calls i (.returned (some t)) } := by
      simp [step, advance, look, hwait, hclosed, hbound]
    exact ⟨_, hgo, update_self ..⟩

theorem aliases_follow_handles_late : ∃ s s', step s (.wake 0) = some s' ∧
    s'.calls 0 = .returned (some ⟨⟨[], []⟩, 0, none⟩) := by
  have hrun : Lib.run step {} [.await 0 5, .register 5 ⟨⟨[], []⟩, 0, none⟩] = some _ := rfl
  exact ⟨_, (aliases_follow_handles hrun).2 0 5 _ _ rfl rfl⟩

end Aliases
end MoqGo.Session
