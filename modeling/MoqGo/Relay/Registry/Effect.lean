import MoqGo.Relay.Registry.Tracks

/-!
# What the track registry keeps

`Effect` says once what an operation can do to each track: the calls it makes to Discovery, whom
it leaves without an upstream, what it deletes and who stays registered. Every operation is one
(`step_effect`), and what holds over whole runs follows from that alone:

* Discovery mirrors the registry: the calls about a key alternate, and the key is published
  exactly while its entry has an upstream (`discovery_mirrors`);
* no subscriber is left hanging: one whose track has lost its last upstream is terminated, and
  one that is registered is on the entry `Get` returns (`subscribers_not_stranded`).

`RemoveSession` deletes an entry for being empty, whoever made it. So it leaves the tracks that
are not the session's alone **unless their entry is empty**, as one is between `GetOrCreateNew`
and `AddUpstream` (`removeSession_keeps_iff`).
-/

namespace MoqGo.Relay

open Message List Option

/-- What a call says about a key: `true` is PublishTrack. -/
def DiscoveryCall.about {K : Type} [DecidableEq K] (k : K) : DiscoveryCall K → Option Bool
  | .publishTrack key _ => if key = k then some true else none
  | .unpublishTrack key => if key = k then some false else none

namespace TrackRegistry

variable {K S : Type} [DecidableEq K] {r r' : TrackRegistry K S} {key : K}

/-- The calls to Discovery about a key, in order. -/
def callsAt (r : TrackRegistry K S) (k : K) : List Bool := r.calls.filterMap (·.about k)

/-- The registry holds an entry for the key whose Upstream is not empty. -/
def hasUpstream (r : TrackRegistry K S) (k : K) : Bool :=
  (r.get k).any fun e => !e.upstream.isEmpty

/-- The subscription is terminated. -/
def Ended (r : TrackRegistry K S) (sub : SubID) : Prop := (r.subs sub).ended = true

/-- The subscription is on the entry `Get` returns. -/
def On (r : TrackRegistry K S) (k : K) (sub : SubID) : Prop :=
  ∃ e, r.get k = some e ∧ sub ∈ e.downstream

def turn (before now : Bool) : List Bool := if before = now then [] else [now]

/-- What an operation can do to each track. -/
structure Effect (r r' : TrackRegistry K S) : Prop where
  calls : ∀ k, r'.callsAt k = r.callsAt k ++ turn (r.hasUpstream k) (r'.hasUpstream k)
  /-- A subscriber without an upstream is told, or was without one before. -/
  orphan : ∀ k e', r'.get k = some e' → e'.upstream = [] → ∀ sub ∈ e'.downstream,
    r'.Ended sub ∨ ∃ e, r.get k = some e ∧ e.upstream = [] ∧ sub ∈ e.downstream
  ended : ∀ sub, r.Ended sub → r'.Ended sub
  dropped : ∀ e ∈ r'.dropped, e ∈ r.dropped ∨ e.downstream = []
  members : ∀ k sub, (k, sub) ∈ r'.members → ((k, sub) ∈ r.members → r.On k sub) → r'.On k sub

namespace Effect

theorem turn_self (b : Bool) : turn b b = [] := if_pos rfl

theorem of_get (hget : ∀ k, r'.get k = r.get k) (hcalls : r'.calls = r.calls)
    (hsubs : r'.subs = r.subs) (hdropped : r'.dropped = r.dropped)
    (hmembers : ∀ m ∈ r'.members, m ∈ r.members) : Effect r r' := by
  refine ⟨?_, ?_, ?_, ?_, ?_⟩
  · intro k
    rw [callsAt, callsAt, hcalls, hasUpstream, hasUpstream, hget, turn_self, append_nil]
  · intro k e' he' hup sub hsub
    exact .inr ⟨e', hget k ▸ he', hup, hsub⟩
  · intro sub h
    rwa [Ended, hsubs]
  · intro e he
    exact .inl (hdropped ▸ he)
  · intro k sub hm hold
    rw [On, hget]
    exact hold (hmembers _ hm)

theorem refl (r : TrackRegistry K S) : Effect r r :=
  of_get (fun _ => rfl) rfl rfl rfl fun _ hm => hm

theorem edit (hget : ∀ k, k ≠ key → r'.get k = r.get k) (hcalls : ∀ k, r'.callsAt k =
      r.callsAt k ++ if k = key then turn (r.hasUpstream key) (r'.hasUpstream key) else [])
    (horphan : ∀ e', r'.get key = some e' → e'.upstream = [] → ∀ sub ∈ e'.downstream,
      r'.Ended sub ∨ ∃ e, r.get key = some e ∧ e.upstream = [] ∧ sub ∈ e.downstream)
    (hended : ∀ sub, r.Ended sub → r'.Ended sub)
    (hdropped : ∀ e ∈ r'.dropped, e ∈ r.dropped ∨ e.downstream = [])
    (hmembers : ∀ k sub, (k, sub) ∈ r'.members →
      (k, sub) ∈ r.members ∨ k = key ∧ r'.On key sub)
    (hkept : ∀ sub, (key, sub) ∈ r'.members → r.On key sub → r'.On key sub) : Effect r r' := by
  refine ⟨?_, ?_, hended, hdropped, ?_⟩
  · intro k
    rw [hcalls]
    by_cases hk : k = key
    · rw [if_pos hk, hk]
    · rw [if_neg hk, hasUpstream, hasUpstream, hget k hk, turn_self]
  · intro k e' he' hup sub hsub
    by_cases hk : k = key
    · subst hk
      exact horphan e' he' hup sub hsub
    · exact .inr ⟨e', hget k hk ▸ he', hup, hsub⟩
  · intro k sub hm hold
    rcases hmembers k sub hm with hin | ⟨rfl, hon⟩
    · by_cases hk : k = key
      · subst hk
        exact hkept sub hm (hold hin)
      · rw [On, hget k hk]
        exact hold hin
    · exact hon

end Effect

/-! ## The parts of the operations -/

theorem callsAt_unpublish (r : TrackRegistry K S) (key k : K) :
    (r.unpublishTrackFromDiscovery key).callsAt k =
      r.callsAt k ++ if k = key then [false] else [] := by
  by_cases hk : k = key
  · simp [callsAt, unpublishTrackFromDiscovery, DiscoveryCall.about, hk]
  · simp [callsAt, unpublishTrackFromDiscovery, DiscoveryCall.about, hk, Ne.symm hk]

theorem foldl_terminate (code : PublishDoneCode) (reason : String) (subs : List SubID)
    (r : TrackRegistry K S) :
    ∃ heap, subs.foldl (terminate code reason) r = { r with subs := heap } ∧
      (∀ sub, (r.subs sub).ended = true → (heap sub).ended = true) ∧
      ∀ sub ∈ subs, (heap sub).ended = true := by
  induction subs generalizing r with
  | nil => exact ⟨r.subs, rfl, fun _ h => h, nofun⟩
  | cons sub rest ih =>
    obtain ⟨one, hone, hkeep, hself⟩ : ∃ one, terminate code reason r sub = { r with subs := one } ∧
        (∀ x, (r.subs x).ended = true → (one x).ended = true) ∧ (one sub).ended = true := by
      unfold terminate DownstreamSub.terminateWithPublishDone
      by_cases hterm : (r.subs sub).sub.state = .terminated
      · simp only [hterm, if_true]
        exact ⟨r.subs, rfl, fun _ h => h, by simp [Subscriber.ended, hterm]⟩
      · simp only [hterm, if_false]
        have hself : Subscriber.ended { r.subs sub with
            sub := (DownstreamSub.takeReadyDone { (r.subs sub).sub with
              state := .terminated, pendingDone := some ⟨code, reason⟩ }).1 } = true := by
          unfold DownstreamSub.takeReadyDone Subscriber.ended
          split_ifs <;> rfl
        refine ⟨_, rfl, ?_, by rw [Function.update_self]; exact hself⟩
        intro x hx
        by_cases hxs : x = sub
        · subst hxs
          rw [Function.update_self]
          exact hself
        · rw [Function.update_of_ne hxs]
          exact hx
    obtain ⟨heap, hheap, hmono, hall⟩ := ih { r with subs := one }
    refine ⟨heap, ?_, fun x hx => hmono x (hkeep x hx), ?_⟩
    · rw [foldl_cons, hone, hheap]
    · intro x hx
      rcases mem_cons.mp hx with rfl | hx
      · exact hmono x hself
      · exact hall x hx

theorem getOrCreateLocked_spec (r : TrackRegistry K S) (key : K) :
    ∃ tracks nextRef, (r.getOrCreateLocked key).1 =
        { r with tracks := tracks, nextRef := nextRef } ∧
      (∀ k, (r.getOrCreateLocked key).1.get k =
        if k = key then some (r.getOrCreateLocked key).2 else r.get k) ∧
      (r.get key = some (r.getOrCreateLocked key).2 ∨ r.get key = none ∧
        (r.getOrCreateLocked key).2.upstream = [] ∧
        (r.getOrCreateLocked key).2.downstream = []) := by
  unfold getOrCreateLocked
  cases hget : r.get key with
  | some e =>
    refine ⟨r.tracks, r.nextRef, rfl, ?_, .inl rfl⟩
    intro k
    split_ifs with hk
    · rw [hk, hget]
    · rfl
  | none =>
    refine ⟨_, _, rfl, ?_, .inr ⟨rfl, rfl, rfl⟩⟩
    intro k
    exact get_put r key k _

variable {e e' : Track S} {members : List (K × SubID)} {order : List K}

theorem hasUpstream_eq (h : r.get key = some e) : r.hasUpstream key = !e.upstream.isEmpty := by
  simp [hasUpstream, h]

theorem hasUpstream_of_none (h : r.get key = none) : r.hasUpstream key = false := by
  simp [hasUpstream, h]

theorem Effect.quiet (hget : ∀ k, k ≠ key → r'.get k = r.get k) (hcalls : r'.calls = r.calls)
    (hup : r'.hasUpstream key = r.hasUpstream key) (hsubs : r'.subs = r.subs)
    (hdropped : ∀ e ∈ r'.dropped, e ∈ r.dropped ∨ e.downstream = [])
    (horphan : ∀ e', r'.get key = some e' → e'.upstream = [] → ∀ sub ∈ e'.downstream,
      ∃ e, r.get key = some e ∧ e.upstream = [] ∧ sub ∈ e.downstream)
    (hmembers : ∀ k sub, (k, sub) ∈ r'.members →
      (k, sub) ∈ r.members ∨ k = key ∧ r'.On key sub)
    (hkept : ∀ sub, (key, sub) ∈ r'.members → r.On key sub → r'.On key sub) : Effect r r' := by
  refine .edit hget ?_ (fun e' he' hup sub hsub => .inr (horphan e' he' hup sub hsub)) ?_ hdropped
    hmembers hkept
  · intro k
    rw [callsAt, callsAt, hcalls, hup, turn_self, ite_self, append_nil]
  · intro sub h
    rwa [Ended, hsubs]

/-! ## The operations -/

section

variable (r : TrackRegistry K S) (key : K)

theorem effect_getOrCreateNew : Effect r (r.getOrCreateNew key).1 := by
  unfold getOrCreateNew
  cases hget : r.get key with
  | some e => exact .refl r
  | none =>
    obtain ⟨tracks, nextRef, heq, hgets, hold⟩ := r.getOrCreateLocked_spec key
    have hself := hgets key
    rw [if_pos rfl] at hself
    obtain ⟨hup, hdown⟩ : (r.getOrCreateLocked key).2.upstream = [] ∧
        (r.getOrCreateLocked key).2.downstream = [] := by
      rcases hold with hsome | ⟨-, h⟩
      · cases hget.symm.trans hsome
      · exact h
    refine @Effect.quiet K S _ _ _ key ?_ (by rw [heq]) ?_ (by rw [heq]) ?_ ?_ ?_ ?_
    · intro k hk
      rw [hgets, if_neg hk]
    · rw [hasUpstream_eq hself, hasUpstream_of_none hget, hup]
      rfl
    · intro e he
      rw [heq] at he
      exact .inl he
    · intro e' he' _ sub hsub
      cases hself.symm.trans he'
      rw [hdown] at hsub
      cases hsub
    · intro k sub hm
      rw [heq] at hm
      exact .inl hm
    · intro sub _ hon
      obtain ⟨e, he, -⟩ := hon
      cases hget.symm.trans he

theorem effect_deleteIfUnused : Effect r (r.deleteIfUnused key) := by
  unfold deleteIfUnused
  cases hget : r.get key with
  | none => exact .refl r
  | some e =>
    simp only
    split_ifs with hlargest hcache hempty
    · exact .refl r
    · exact .refl r
    · obtain ⟨hup, hdown⟩ : e.upstream = [] ∧ e.downstream = [] := by
        simpa [Track.empty] using hempty
      refine @Effect.quiet K S _ _ _ key ?_ rfl ?_ rfl ?_ ?_ (fun _ _ hm => .inl hm) ?_
      · intro k hk
        rw [get_delete, if_neg hk]
      · rw [hasUpstream_eq hget, hasUpstream_of_none (by simp), hup]
        rfl
      · intro e' he'
        simp only [delete, hget, toList_some, singleton_append, mem_cons] at he'
        rcases he' with rfl | he'
        · exact .inr hdown
        · exact .inl he'
      · intro e' he'
        simp at he'
      · intro sub _ hon
        obtain ⟨e', he', hsub⟩ := hon
        cases hget.symm.trans he'
        rw [hdown] at hsub
        cases hsub
    · exact .refl r

theorem addUpstream_spec (u : UpID) (properties : Option (List UInt8)) :
    ∃ tracks nextRef calls, (r.addUpstream key u properties).1 =
        { r with tracks := tracks, nextRef := nextRef, calls := r.calls ++ calls } ∧
      calls.filterMap (·.about key) = turn (r.hasUpstream key) true ∧
      (∀ k, k ≠ key → calls.filterMap (·.about k) = []) ∧
      (∀ k, k ≠ key → (r.addUpstream key u properties).1.get k = r.get k) ∧
      ∃ e', (r.addUpstream key u properties).1.get key = some e' ∧ e'.upstream ≠ [] ∧
        ∀ e, r.get key = some e → e'.downstream = e.downstream := by
  obtain ⟨tracks, nextRef, heq, hgets, hold⟩ := r.getOrCreateLocked_spec key
  unfold addUpstream
  generalize r.getOrCreateLocked key = made at heq hgets hold
  obtain ⟨r₁, e⟩ := made
  simp only at heq hgets hold ⊢
  generalize he₁ : ({ e with upstream := e.upstream ++ [u], properties := _ } : Track S) = e₁
  have hbefore : r.hasUpstream key = !e.upstream.isEmpty := by
    rcases hold with hsome | ⟨hnone, hup, -⟩
    · exact hasUpstream_eq hsome
    · rw [hasUpstream_of_none hnone, hup]
      rfl
  have hput : ∀ k, (r₁.put key e₁).get k = if k = key then some e₁ else r.get k := by
    intro k
    rw [get_put, hgets]
    split_ifs <;> rfl
  have hdown : ∀ e₂, r.get key = some e₂ → e₁.downstream = e₂.downstream := by
    intro e₂ he₂
    rcases hold with hsome | ⟨hnone, -⟩
    · cases hsome.symm.trans he₂
      rw [← he₁]
    · cases hnone.symm.trans he₂
  have hself : (r₁.put key e₁).get key = some e₁ := by rw [hput, if_pos rfl]
  have hup₁ : e₁.upstream ≠ [] := by simp [← he₁]
  rw [hbefore]
  by_cases hempty : e.upstream.isEmpty = true
  · rw [if_pos hempty, hempty]
    refine ⟨(r₁.put key e₁).tracks, nextRef, [.publishTrack key e₁.properties], ?_, ?_, ?_, ?_, e₁,
      hself, hup₁, hdown⟩
    · simp only [publishTrackToDiscovery, put, heq]
    · simp [DiscoveryCall.about, turn]
    · intro k hk
      simp [DiscoveryCall.about, Ne.symm hk]
    · intro k hk
      exact (hput k).trans (if_neg hk)
  · rw [if_neg hempty]
    refine ⟨(r₁.put key e₁).tracks, nextRef, [], ?_, ?_, fun _ _ => rfl, ?_, e₁, hself, hup₁, hdown⟩
    · simp only [put, heq, append_nil]
    · simp [turn, hempty]
    · intro k hk
      exact (hput k).trans (if_neg hk)

theorem effect_addUpstream (u : UpID)
    (properties : Option (List UInt8)) : Effect r (r.addUpstream key u properties).1 := by
  obtain ⟨tracks, nextRef, calls, heq, hcall, hother, hget, e', he', hup, hdown⟩ :=
    r.addUpstream_spec key u properties
  have hafter : (r.addUpstream key u properties).1.hasUpstream key = true := by
    rw [hasUpstream_eq he']
    simpa using hup
  refine @Effect.edit K S _ _ _ key hget ?_ ?_ ?_ ?_ ?_ ?_
  · intro k
    rw [hafter]
    simp only [callsAt, heq, filterMap_append]
    by_cases hk : k = key
    · rw [if_pos hk, hk, hcall]
    · rw [if_neg hk, hother k hk]
  · intro e'' he'' hnone
    cases he'.symm.trans he''
    exact absurd hnone hup
  · intro sub h
    rw [Ended, heq]
    exact h
  · intro e'' he''
    rw [heq] at he''
    exact .inl he''
  · intro k sub hm
    rw [heq] at hm
    exact .inl hm
  · intro sub _ hon
    obtain ⟨e, he, hsub⟩ := hon
    exact ⟨e', he', hdown e he ▸ hsub⟩

theorem effect_addDownstreamSnapshotLargest (sub : SubID) :
    Effect r (r.addDownstreamSnapshotLargest key sub).1 := by
  unfold addDownstreamSnapshotLargest
  cases hget : r.get key with
  | none => exact .refl r
  | some e =>
    simp only
    split_ifs with hup
    · exact .refl r
    · generalize he' : ({ e with
        toTrackEntry := e.toTrackEntry.addDownstreamSnapshotLargest sub } : Track S) = e'
      have hup' : e'.upstream = e.upstream := by rw [← he']
      have hdown : e'.downstream = e.downstream ++ [sub] := by rw [← he']; rfl
      have hself : (r.put key e').get key = some e' := by simp
      refine @Effect.quiet K S _ _ _ key ?_ rfl ?_ rfl (fun _ h => .inl h) ?_ ?_ ?_
      · intro k hk
        exact (get_put r key k e').trans (if_neg hk)
      · exact (hasUpstream_eq (r := r.put key e') hself).trans (by rw [hup', hasUpstream_eq hget])
      · intro e'' he'' hnone
        cases hself.symm.trans he''
        exact absurd (hup' ▸ hnone) hup
      · intro k x hm
        rcases mem_append.mp hm with hm | hm
        · exact .inl hm
        · cases mem_singleton.mp hm
          exact .inr ⟨rfl, e', hself, by simp [hdown]⟩
      · intro x _ hon
        obtain ⟨e₀, he₀, hx⟩ := hon
        cases hget.symm.trans he₀
        exact ⟨e', hself, by simp [hdown, hx]⟩

end

theorem get_settle_self (h : (r.settle key e).get key = some e') : e' = e ∧ e.empty = false := by
  rw [get_settle, if_pos rfl, filter_some] at h
  split_ifs at h with hne
  exact ⟨(some.inj h).symm, by simpa using hne⟩

theorem hasUpstream_settle (r : TrackRegistry K S) (key : K) (e : Track S) :
    (r.settle key e).hasUpstream key = !e.upstream.isEmpty := by
  simp only [hasUpstream, get_settle, if_true, filter_some, Track.empty]
  by_cases hup : e.upstream.isEmpty = true <;> by_cases hdown : e.downstream.isEmpty = true <;>
    simp [hup, hdown]

theorem on_settle {sub : SubID} (h : sub ∈ e.downstream) : (r.settle key e).On key sub := by
  have hne : e.empty = false := by
    cases hdown : e.downstream with
    | nil =>
      rw [hdown] at h
      cases h
    | cons _ _ => simp [Track.empty, hdown]
  exact ⟨e, by simp [filter_some, hne], h⟩

theorem Effect.unpublished {heap : SubID → Subscriber} (hget : r.get key = some e)
    (hbefore : e.upstream ≠ []) (hafter : e'.upstream = [])
    (hheap : ∀ sub, (r.subs sub).ended = true → (heap sub).ended = true)
    (htold : ∀ sub ∈ e'.downstream, (heap sub).ended = true)
    (hmembers : ∀ m ∈ members, m ∈ r.members)
    (hkept : ∀ sub, (key, sub) ∈ members → sub ∈ e.downstream → sub ∈ e'.downstream)
    (hr' : r' = { (r.settle key e').unpublishTrackFromDiscovery key with
      subs := heap, members := members }) : Effect r r' := by
  obtain ⟨tracks, dropped, heq, hdropped⟩ := r.settle_eq key e'
  have hgets : ∀ k, r'.get k = (r.settle key e').get k := by
    intro k
    rw [hr']
    rfl
  have hup : r'.hasUpstream key = false := by
    rw [hasUpstream, hgets, ← hasUpstream, hasUpstream_settle, hafter]
    rfl
  refine @Effect.edit K S _ _ _ key ?_ ?_ ?_ ?_ ?_ ?_ ?_
  · intro k hk
    rw [hgets, get_settle, if_neg hk]
  · intro k
    have hcalls : r'.callsAt k = ((r.settle key e').unpublishTrackFromDiscovery key).callsAt k := by
      rw [hr']
      rfl
    have hsame : (r.settle key e').callsAt k = r.callsAt k := by
      rw [heq]
      rfl
    have hne : e.upstream.isEmpty = false := by simpa using hbefore
    rw [hcalls, callsAt_unpublish, hsame, hup, hasUpstream_eq hget, hne]
    rfl
  · intro e'' he'' _ sub hsub
    rw [hgets] at he''
    obtain ⟨rfl, -⟩ := get_settle_self he''
    rw [Ended, hr']
    exact .inl (htold sub hsub)
  · intro sub h
    rw [Ended, hr']
    exact hheap sub h
  · intro e'' he''
    rw [hr', heq] at he''
    rcases hdropped e'' he'' with he'' | he''
    · exact .inl he''
    · refine .inr ?_
      simp only [Track.empty, Bool.and_eq_true, List.isEmpty_iff] at he''
      exact he''.2
  · intro k sub hm
    rw [hr'] at hm
    exact .inl (hmembers _ hm)
  · intro sub hm hon
    rw [hr'] at hm
    obtain ⟨e₀, he₀, hsub⟩ := hon
    cases hget.symm.trans he₀
    rw [On, hgets]
    exact on_settle (hkept sub hm hsub)

theorem Effect.settled (hget : r.get key = some e) (hup : e'.upstream = [] ↔ e.upstream = [])
    (hdown : ∀ sub ∈ e'.downstream, sub ∈ e.downstream) (hmembers : ∀ m ∈ members, m ∈ r.members)
    (hkept : ∀ sub, (key, sub) ∈ members → sub ∈ e.downstream → sub ∈ e'.downstream)
    (hr' : r' = { r.settle key e' with members := members }) : Effect r r' := by
  obtain ⟨tracks, dropped, heq, hdropped⟩ := r.settle_eq key e'
  have hgets : ∀ k, r'.get k = (r.settle key e').get k := by
    intro k
    rw [hr']
    rfl
  refine @Effect.quiet K S _ _ _ key ?_ (by rw [hr', heq]) ?_ (by rw [hr', heq]) ?_ ?_ ?_ ?_
  · intro k hk
    rw [hgets, get_settle, if_neg hk]
  · rw [hasUpstream, hgets, ← hasUpstream, hasUpstream_settle, hasUpstream_eq hget, Bool.eq_iff_iff]
    simp [hup]
  · intro e'' he''
    rw [hr', heq] at he''
    rcases hdropped e'' he'' with he'' | he''
    · exact .inl he''
    · refine .inr ?_
      simp only [Track.empty, Bool.and_eq_true, List.isEmpty_iff] at he''
      exact he''.2
  · intro e'' he'' hnone sub hsub
    rw [hgets] at he''
    obtain ⟨rfl, -⟩ := get_settle_self he''
    exact ⟨e, hget, hup.mp hnone, hdown sub hsub⟩
  · intro k sub hm
    rw [hr'] at hm
    exact .inl (hmembers _ hm)
  · intro sub hm hon
    rw [hr'] at hm
    obtain ⟨e₀, he₀, hsub⟩ := hon
    cases hget.symm.trans he₀
    rw [On, hgets]
    exact on_settle (hkept sub hm hsub)

theorem Effect.put (hget : r.get key = some e) (hup : e'.upstream = [] ↔ e.upstream = [])
    (hdown : e'.downstream = e.downstream) : Effect r (r.put key e') := by
  have hself : (r.put key e').get key = some e' := by simp
  refine @Effect.quiet K S _ _ _ key ?_ rfl ?_ rfl (fun _ h => .inl h) ?_ (fun _ _ hm => .inl hm) ?_
  · intro k hk
    rw [get_put, if_neg hk]
  · rw [hasUpstream_eq hself, hasUpstream_eq hget, Bool.eq_iff_iff]
    simp [hup]
  · intro e'' he'' hnone sub hsub
    cases hself.symm.trans he''
    exact ⟨e, hget, hup.mp hnone, hdown ▸ hsub⟩
  · intro sub _ hon
    obtain ⟨e₀, he₀, hsub⟩ := hon
    cases hget.symm.trans he₀
    exact ⟨e', hself, hdown ▸ hsub⟩

section

variable (r : TrackRegistry K S) (key : K)

theorem effect_removeUpstream (subID : UInt64) : Effect r (r.removeUpstream key subID).1 := by
  unfold removeUpstream
  cases hget : r.get key with
  | none => exact .refl r
  | some e =>
    simp only
    split_ifs with hsame hnone
    · exact .refl r
    · -- the last upstream: everybody on the entry is told
      generalize downstreamDoneCode _ = code
      obtain ⟨heap, heq, hmono, htold⟩ := foldl_terminate code "relay: upstream gone" e.downstream
        ((r.settle key { e with
          upstream := e.upstream.filter fun u => (r.ups u).id ≠ subID
          }).unpublishTrackFromDiscovery key)
      obtain ⟨tracks, dropped, hsettle, -⟩ := r.settle_eq key { e with
          upstream := e.upstream.filter fun u => (r.ups u).id ≠ subID }
      refine @Effect.unpublished K S _ r _ key e { e with
        upstream := e.upstream.filter fun u => (r.ups u).id ≠ subID } r.members heap hget ?_ hnone
        ?_ htold (fun _ hm => hm) (fun _ _ hsub => hsub) ?_
      · intro hup
        exact hsame (by simp [hup])
      · intro sub hsub
        apply hmono
        rw [hsettle]
        exact hsub
      · rw [heq, hsettle]
        rfl
    · refine @Effect.settled K S _ r _ key e { e with
        upstream := e.upstream.filter fun u => (r.ups u).id ≠ subID } r.members hget ?_
        (fun _ h => h) (fun _ hm => hm) (fun _ _ hsub => hsub) ?_
      · refine ⟨fun h => absurd h hnone, ?_⟩
        intro hup
        exact absurd (by simp [hup]) hsame
      · obtain ⟨tracks, dropped, hsettle, -⟩ := r.settle_eq key { e with
          upstream := e.upstream.filter fun u => (r.ups u).id ≠ subID }
        rw [hsettle]

theorem effect_removeDownstream (subID : UInt64) : Effect r (r.removeDownstream key subID).1 := by
  unfold removeDownstream
  have hmembers : ∀ m ∈ r.members.filter fun m => ¬ (m.1 = key ∧ (r.subs m.2).id = subID),
      m ∈ r.members := fun m hm => mem_of_mem_filter hm
  cases hget : r.get key with
  | none => exact .of_get (fun _ => rfl) rfl rfl rfl hmembers
  | some e =>
    simp only
    generalize hdown : (e.downstream.filter fun sub => (r.subs sub).id ≠ subID) = downstream
    have hsub : ∀ sub ∈ downstream, sub ∈ e.downstream := by
      intro sub hsub
      rw [← hdown] at hsub
      exact mem_of_mem_filter hsub
    have hkept : ∀ sub, (key, sub) ∈ r.members.filter (fun m =>
        ¬ (m.1 = key ∧ (r.subs m.2).id = subID)) → sub ∈ e.downstream → sub ∈ downstream := by
      intro sub hm hin
      rw [← hdown]
      have hid := (mem_filter.mp hm).2
      exact mem_filter.mpr ⟨hin, by simpa using hid⟩
    split_ifs with hsame hlast hgone hgone
    · exact .of_get (fun _ => rfl) rfl rfl rfl hmembers
    · -- the upstreams opened on demand were the only ones
      refine @Effect.unpublished K S _ r _ key e { e with
        downstream := downstream, upstream := stripOnDemand r.ups e.upstream } _ r.subs hget
        hgone.1 hgone.2 (fun _ h => h) ?_ hmembers hkept ?_
      · intro sub hin
        rw [hlast] at hin
        cases hin
      · obtain ⟨tracks, dropped, hsettle, -⟩ := r.settle_eq key { e with
          downstream := downstream, upstream := stripOnDemand r.ups e.upstream }
        rw [hsettle]
        rfl
    · refine @Effect.settled K S _ r _ key e _ _ hget ?_ hsub hmembers hkept rfl
      refine ⟨?_, ?_⟩
      · intro hnone
        by_contra hup
        exact hgone ⟨hup, hnone⟩
      · intro hup
        rw [hup]
        rfl
    · exact absurd hgone.2 hgone.1
    · exact @Effect.settled K S _ r _ key e { e with downstream := downstream } _ hget Iff.rfl hsub
        hmembers hkept rfl

theorem effect_releaseIfUnsubscribed (up : UpID) : Effect r (r.releaseIfUnsubscribed key up).1 := by
  unfold releaseIfUnsubscribed
  cases hget : r.get key with
  | none => exact .refl r
  | some e =>
    simp only
    generalize hup : (if e.downstream = [] then e.upstream.filter (· ≠ up) else e.upstream) =
      upstream
    have hle : upstream.length ≤ e.upstream.length := by
      rw [← hup]
      split_ifs
      · exact length_filter_le _ _
      · exact Nat.le_refl _
    split_ifs with hgone
    · simp only [decide_eq_true_eq] at hgone
      obtain ⟨hless, hnone⟩ := hgone
      have hdown : e.downstream = [] := by
        by_contra hne
        rw [if_neg hne] at hup
        rw [hup] at hless
        exact Nat.lt_irrefl _ hless
      have hempty : Track.empty { e with upstream := upstream } = true := by
        simp [Track.empty, hnone, hdown]
      refine @Effect.unpublished K S _ r _ key e { e with upstream := upstream } r.members r.subs
        hget ?_ hnone (fun _ h => h) ?_ (fun _ hm => hm) (fun _ _ hsub => hsub) ?_
      · intro hnil
        rw [hnil] at hless
        exact Nat.not_lt_zero _ hless
      · intro sub hsub
        rw [hdown] at hsub
        cases hsub
      · rw [settle, if_pos hempty]
        rfl
    · refine @Effect.put K S _ r key e { e with upstream := upstream } hget ?_ rfl
      show upstream = [] ↔ e.upstream = []
      -- nothing was released, or another upstream is left
      simp only [decide_eq_true_eq, not_and] at hgone
      refine ⟨?_, ?_⟩
      · intro hnone
        have hlen : ¬ upstream.length < e.upstream.length := fun h => hgone h hnone
        rw [hnone, length_nil] at hlen
        exact eq_nil_of_length_eq_zero (by omega)
      · intro hnil
        rw [hnil, length_nil] at hle
        exact eq_nil_of_length_eq_zero (by omega)

theorem effect_deliver (largest : Location) (cache : ObjectCache)
    {r' : TrackRegistry K S} (h : r.step (.deliver key largest cache) = some r') : Effect r r' := by
  cases h
  cases hget : r.get key with
  | none => exact .refl r
  | some e =>
    refine Effect.put hget Iff.rfl ?_
    obtain ⟨l, known, heq⟩ := e.toTrackEntry.updateLargest_eq largest
    simp only [heq]

end

/-! ## `RemoveSession` -/

/-- What `RemoveSession`'s loop makes of an entry: the session's subscriptions leave it; it is an
    orphan exactly if it had an upstream and has none any more, and everybody left on it is told
    then. -/
theorem withoutSession_spec (ups : UpID → UpstreamSub) (subs : SubID → Subscriber)
    (sess : SessionID) (e : Track S) :
    (withoutSession ups subs sess e).1.downstream =
        e.downstream.filter (fun sub => (subs sub).session ≠ sess) ∧
      (e.upstream = [] → (withoutSession ups subs sess e).1.upstream = []) ∧
      ((withoutSession ups subs sess e).2.isSome = true ↔
        e.upstream ≠ [] ∧ (withoutSession ups subs sess e).1.upstream = []) ∧
      ∀ told, (withoutSession ups subs sess e).2 = some told →
        ∀ sub ∈ (withoutSession ups subs sess e).1.downstream, sub ∈ told := by
  unfold withoutSession
  simp only
  split_ifs with hgone hlast hkept
  · refine ⟨rfl, fun _ => hgone.2, by simpa using hgone, ?_⟩
    intro told h sub hsub
    cases h
    exact hsub
  · refine ⟨rfl, fun _ => hkept, ?_, ?_⟩
    · refine ⟨fun _ => ⟨?_, hkept⟩, fun _ => rfl⟩
      intro hup
      exact hlast.2.2 (by simp [hup])
    · intro told _ sub hsub
      rw [hlast.2.1] at hsub
      cases hsub
  · refine ⟨rfl, ?_, ⟨nofun, fun h => absurd h.2 hkept⟩, nofun⟩
    intro hup
    exact absurd (by simp [hup]) hlast.2.2
  · refine ⟨rfl, fun hup => by simp [hup], ?_, nofun⟩
    simpa using hgone

theorem foldl_unpublish (orphans : List (K × List SubID)) (r : TrackRegistry K S) :
    orphans.foldl (fun r o => r.unpublishTrackFromDiscovery o.1) r =
      { r with calls := r.calls ++ orphans.map fun o => .unpublishTrack o.1 } := by
  induction orphans generalizing r with
  | nil => simp
  | cons o orphans ih =>
    rw [foldl_cons, ih]
    simp [unpublishTrackFromDiscovery]

theorem about_orphans (hnodup : order.Nodup) (f : K → Option (List SubID)) (k : K) :
    ((order.filterMap fun k => (f k).map (k, ·)).map fun o =>
        (.unpublishTrack o.1 : DiscoveryCall K)).filterMap (·.about k) =
      if k ∈ order ∧ (f k).isSome then [false] else [] := by
  induction order with
  | nil => simp
  | cons key order ih =>
    rw [nodup_cons] at hnodup
    have ih := ih hnodup.2
    cases hf : f key with
    | none =>
      rw [filterMap_cons_none (by simp [hf]), ih]
      by_cases hk : k = key
      · subst hk
        simp [hf]
      · simp [hk]
    | some told =>
      rw [filterMap_cons_some (b := (key, told)) (by simp [hf]), map_cons]
      by_cases hk : k = key
      · subst hk
        rw [filterMap_cons_some (b := false) (by simp [DiscoveryCall.about]), ih]
        simp [hf, hnodup.1]
      · rw [filterMap_cons_none (by simp [DiscoveryCall.about, Ne.symm hk]), ih]
        simp [hk]

/-- **`RemoveSession`**: what is left of each track, who is told and what Discovery hears. -/
theorem removeSession_spec (r : TrackRegistry K S) (sess : SessionID)
    (horder : order.Perm r.tracks.keys) : (∀ k, (r.removeSession sess order).1.get k =
        ((r.get k).map fun e => (withoutSession r.ups r.subs sess e).1).filter fun e => !e.empty) ∧
      (∀ k, (r.removeSession sess order).1.callsAt k = r.callsAt k ++
        if ((r.get k).bind fun e => (withoutSession r.ups r.subs sess e).2).isSome then [false]
        else []) ∧
      (∀ sub, r.Ended sub → (r.removeSession sess order).1.Ended sub) ∧
      (∀ k e told, r.get k = some e → (withoutSession r.ups r.subs sess e).2 = some told →
        ∀ sub ∈ told, (r.removeSession sess order).1.Ended sub) ∧
      (∀ e ∈ (r.removeSession sess order).1.dropped, e ∈ r.dropped ∨ e.empty = true) ∧
      (r.removeSession sess order).1.members =
        r.members.filter fun m => (r.subs m.2).session ≠ sess := by
  have hnodup : order.Nodup := horder.nodup_iff.mpr (AList.keys_nodup r.tracks)
  have hmem : ∀ k, k ∈ order ↔ (r.get k).isSome = true := by
    intro k
    rw [horder.mem_iff, ← AList.mem_keys, ← AList.lookup_isSome]
    rfl
  have hswept := swept_foldl sess hnodup { registry := r }
  obtain ⟨tracks, dropped, hrest, hdropped⟩ := hswept.rest
  have horphans := hswept.orphans
  rw [nil_append] at horphans
  unfold removeSession
  simp only
  generalize order.foldl (sweep sess) { registry := r } = swept at hswept hrest horphans
  rw [foldl_unpublish]
  obtain ⟨heap, heq, hmono, htold⟩ := foldl_terminate publishDoneTrackEnded
    "relay: publisher session gone" (swept.orphans.flatMap (·.2))
    { swept.registry with
      members := r.members.filter fun m => (r.subs m.2).session ≠ sess
      calls := swept.registry.calls ++ swept.orphans.map fun o => .unpublishTrack o.1 }
  rw [heq]
  refine ⟨?_, ?_, ?_, ?_, ?_, rfl⟩
  · intro k
    refine (hswept.get k).trans ?_
    by_cases hk : k ∈ order
    · rw [if_pos hk]
    · have hnone : r.get k = none := by simpa [hmem] using hk
      simp [hk, hnone]
  · intro k
    have hbind : ∀ k, ((r.get k).bind fun e =>
          (withoutSession r.ups r.subs sess e).2.map (k, ·)) =
        ((r.get k).bind fun e => (withoutSession r.ups r.subs sess e).2).map (k, ·) := by
      intro k
      cases r.get k <;> rfl
    simp only [hbind] at horphans
    have hcalls : swept.registry.calls = r.calls := by rw [hrest]
    simp only [callsAt, filterMap_append, hcalls, horphans, about_orphans hnodup, hmem]
    cases r.get k <;> simp
  · intro sub hsub
    apply hmono
    rw [hrest]
    exact hsub
  · intro k e told hk ho sub hsub
    apply htold
    refine mem_flatMap.mpr ⟨(k, told), ?_, hsub⟩
    rw [horphans]
    exact mem_filterMap.mpr ⟨k, (hmem k).mpr (by simp [hk]), by simp [hk, ho]⟩
  · intro e he
    apply hdropped e
    rw [hrest] at he
    exact he

theorem effect_removeSession (r : TrackRegistry K S) (sess : SessionID)
    (horder : order.Perm r.tracks.keys) : Effect r (r.removeSession sess order).1 := by
  obtain ⟨hget, hcalls, hended, htold, hdropped, hmembers⟩ := r.removeSession_spec sess horder
  -- what is left at a key comes from the entry that was there
  have hfrom : ∀ k e', (r.removeSession sess order).1.get k = some e' →
      ∃ e, r.get k = some e ∧ (withoutSession r.ups r.subs sess e).1 = e' := by
    intro k e' he'
    rw [hget, filter_eq_some_iff, map_eq_some_iff] at he'
    exact he'.1
  refine ⟨?_, ?_, hended, ?_, ?_⟩
  · intro k
    rw [hcalls]
    congr 1
    cases hk : r.get k with
    | none => simp [hasUpstream, hget, hk, turn]
    | some e =>
      obtain ⟨-, hnil, horphan, -⟩ := withoutSession_spec r.ups r.subs sess e
      have hafter : (r.removeSession sess order).1.hasUpstream k =
          !(withoutSession r.ups r.subs sess e).1.upstream.isEmpty := by
        rw [hasUpstream, hget, hk, map_some, ← hasUpstream_settle r k, hasUpstream,
          get_settle, if_pos rfl]
      rw [hafter, hasUpstream_eq hk, bind_some]
      by_cases hup : e.upstream = []
      · have hno : (withoutSession r.ups r.subs sess e).2.isSome ≠ true :=
          fun h => (horphan.mp h).1 hup
        simp [hno, hup, hnil hup, turn]
      · by_cases hleft : (withoutSession r.ups r.subs sess e).1.upstream = []
        · simp [horphan.mpr ⟨hup, hleft⟩, hup, hleft, turn]
        · have hno : (withoutSession r.ups r.subs sess e).2.isSome ≠ true :=
            fun h => hleft (horphan.mp h).2
          rw [if_neg hno, isEmpty_eq_false_iff.mpr hup, isEmpty_eq_false_iff.mpr hleft]
          rfl
  · intro k e' he' hnone sub hsub
    obtain ⟨e, he, rfl⟩ := hfrom k e' he'
    obtain ⟨hdown, -, horphan, hall⟩ := withoutSession_spec r.ups r.subs sess e
    by_cases hup : e.upstream = []
    · rw [hdown] at hsub
      exact .inr ⟨e, he, hup, mem_of_mem_filter hsub⟩
    · obtain ⟨told, ho⟩ := isSome_iff_exists.mp (horphan.mpr ⟨hup, hnone⟩)
      exact .inl (htold k e told he ho sub (hall told ho sub hsub))
  · intro e he
    rcases hdropped e he with he | he
    · exact .inl he
    · refine .inr ?_
      simp only [Track.empty, Bool.and_eq_true, List.isEmpty_iff] at he
      exact he.2
  · intro k sub hm hold
    rw [hmembers] at hm
    obtain ⟨hm, hsess⟩ := mem_filter.mp hm
    obtain ⟨e, he, hsub⟩ := hold hm
    obtain ⟨hdown, -⟩ := withoutSession_spec r.ups r.subs sess e
    have hstays : sub ∈ (withoutSession r.ups r.subs sess e).1.downstream := by
      rw [hdown]
      exact mem_filter.mpr ⟨hsub, hsess⟩
    obtain ⟨e', he', hsub'⟩ := @on_settle K S _ r k _ sub hstays
    refine ⟨e', ?_, hsub'⟩
    rw [hget, he, map_some, ← he', get_settle, if_pos rfl]

theorem step_effect {op : Op K} (h : r.step op = some r') : Effect r r' := by
  cases op with
  | getOrCreateNew key =>
    cases h
    exact r.effect_getOrCreateNew key
  | deleteIfUnused key =>
    cases h
    exact r.effect_deleteIfUnused key
  | addUpstream key u properties =>
    cases h
    exact r.effect_addUpstream key u properties
  | addDownstreamSnapshotLargest key sub =>
    cases h
    exact r.effect_addDownstreamSnapshotLargest key sub
  | removeUpstream key subID =>
    cases h
    exact r.effect_removeUpstream key subID
  | removeDownstream key subID =>
    cases h
    exact r.effect_removeDownstream key subID
  | releaseIfUnsubscribed key up =>
    cases h
    exact r.effect_releaseIfUnsubscribed key up
  | removeSession sess order =>
    simp only [step] at h
    split_ifs at h with horder
    cases h
    exact r.effect_removeSession sess horder
  | setPublishDone u code =>
    cases h
    exact .of_get (fun _ => rfl) rfl rfl rfl fun _ hm => hm
  | deliver key largest cache => exact r.effect_deliver key largest cache h

/-! ## A session's end, for the tracks of others -/

/-- **When `RemoveSession` leaves a track alone.** An entry on which the session owns nothing is
    found as it was, the same entry with the same lists, watermark and cache, exactly if it is
    not empty. -/
theorem removeSession_keeps_iff (r : TrackRegistry K S) (sess : SessionID) {order : List K}
    (horder : order.Perm r.tracks.keys) {k : K} {e : Track S} (hget : r.get k = some e)
    (hup : ∀ u ∈ e.upstream, (r.ups u).session ≠ sess)
    (hdown : ∀ sub ∈ e.downstream, (r.subs sub).session ≠ sess) :
    (r.removeSession sess order).1.get k = some e ↔ e.upstream ≠ [] ∨ e.downstream ≠ [] := by
  have hups : e.upstream.filter (fun u => (r.ups u).session ≠ sess) = e.upstream :=
    filter_eq_self.mpr fun u hu => by simpa using hup u hu
  have hdowns : e.downstream.filter (fun sub => (r.subs sub).session ≠ sess) = e.downstream :=
    filter_eq_self.mpr fun sub hsub => by simpa using hdown sub hsub
  have hsame : (withoutSession r.ups r.subs sess e).1 = e := by
    unfold withoutSession
    simp only [hups, hdowns]
    rw [if_neg (fun h => h.1 h.2), if_neg (fun h => Nat.lt_irrefl _ h.1)]
  rw [(r.removeSession_spec sess horder).1, hget, map_some, hsame, filter_some]
  by_cases hu : e.upstream = [] <;> by_cases hd : e.downstream = [] <;> simp [Track.empty, hu, hd]

/-- The track of another session, which is fed, is kept. -/
theorem removeSession_keeps_fed :
    ∃ (r : TrackRegistry Nat Nat) (e : Track Nat),
      Lib.run step (init (fun u => { id := 0, session := u }) fun _ => { id := 0, session := 0 })
        [.addUpstream 0 1 none, .addUpstream 5 2 none] = some r ∧
      r.get 0 = some e ∧ (r.removeSession 2 [5, 0]).1.get 0 = some e := by
  refine ⟨_, _, rfl, rfl, ?_⟩
  exact (removeSession_keeps_iff _ 2 (by decide) rfl (by decide) (by decide)).mpr
    (.inl (by decide))

/-- **A parked entry is deleted.** A handler has created the entry of track 0, for a PUBLISH that
    is still to be answered, when another session ends: the entry is gone, and the handler's
    `AddUpstream` makes another one. -/
theorem parked_entry_deleted :
    ∃ (r : TrackRegistry Nat Nat) (e e' : Track Nat),
      Lib.run step (init (fun u => { id := 0, session := u }) fun _ => { id := 0, session := 0 })
        [.getOrCreateNew 0] = some r ∧
      r.get 0 = some e ∧ e.upstream = [] ∧ e.downstream = [] ∧
      (r.removeSession 2 [0]).1.get 0 = none ∧
      ((r.removeSession 2 [0]).1.addUpstream 0 1 none).1.get 0 = some e' ∧ e'.ref ≠ e.ref := by
  refine ⟨_, _, _, rfl, rfl, rfl, rfl, rfl, rfl, ?_⟩
  decide

/-! ## Whole runs -/

/-- Discovery's view of a key after one more call: a track is published when it was not, and
    unpublished when it was. -/
def mirror (published publish : Bool) : Option Bool :=
  if published = publish then none else some publish

/-- **Discovery mirrors the registry.** In every run, for every key, the calls about the key
    strictly alternate and start with PublishTrack, and after them the key is published exactly
    if the registry holds an entry for it whose Upstream is not empty. -/
theorem discovery_mirrors {ups : UpID → UpstreamSub} {subs : SubID → Subscriber} {ops : List (Op K)}
    (hrun : Lib.run step (init ups subs) ops = some r) (k : K) :
    Lib.run mirror false (r.callsAt k) = some (r.hasUpstream k) := by
  refine Lib.run_inv (P := fun r => Lib.run mirror false (r.callsAt k) = some (r.hasUpstream k))
    ?_ rfl hrun
  intro r op r' hi hstep
  rw [(step_effect hstep).calls, Lib.run_append]
  refine ⟨_, hi, ?_⟩
  cases r.hasUpstream k <;> cases r'.hasUpstream k <;> rfl

/-- A track comes and goes twice: with its only upstream, and with the last subscriber of an
    upstream opened on demand. -/
def comesAndGoes : List (Op Nat) :=
  [.addUpstream 0 0 none, .addDownstreamSnapshotLargest 0 0, .removeUpstream 0 10,
    .removeDownstream 0 20, .addUpstream 0 1 none, .addDownstreamSnapshotLargest 0 1,
    .removeSession 21 [0], .getOrCreateNew 0, .addUpstream 0 0 none]

def twoUps (u : UpID) : UpstreamSub :=
  { id := if u = 0 then 10 else 11, session := u, onDemand := u = 1 }

def twoSubs (sub : SubID) : Subscriber :=
  { id := if sub = 0 then 20 else 21, session := 20 + sub }

theorem discovery_mirrors_comesAndGoes :
    ∃ r : TrackRegistry Nat Nat, Lib.run step (init twoUps twoSubs) comesAndGoes = some r ∧
      r.callsAt 0 = [true, false, true, false, true] ∧
      Lib.run mirror false (r.callsAt 0) = some (r.hasUpstream 0) := by
  refine Lib.computes_and (by decide +kernel) ?_
  exact fun r hr _ => discovery_mirrors hr 0

/-- Nobody waits for a track that has no upstream, or on an entry that is gone. -/
structure Unstranded (r : TrackRegistry K S) : Prop where
  ended : ∀ k e, r.get k = some e → e.upstream = [] → ∀ sub ∈ e.downstream, r.Ended sub
  dropped : ∀ e ∈ r.dropped, e.downstream = []
  members : ∀ k sub, (k, sub) ∈ r.members → r.On k sub

theorem Unstranded.init (ups : UpID → UpstreamSub) (subs : SubID → Subscriber) :
    Unstranded (init ups subs : TrackRegistry K S) := by
  refine ⟨?_, ?_, ?_⟩
  · intro k e he
    cases (AList.lookup_empty k).symm.trans he
  · intro e he
    cases he
  · intro k sub hm
    cases hm

theorem Unstranded.step {op : Op K} (hi : Unstranded r) (h : r.step op = some r') :
    Unstranded r' := by
  have heffect := step_effect h
  refine ⟨?_, ?_, ?_⟩
  · intro k e' he' hnone sub hsub
    rcases heffect.orphan k e' he' hnone sub hsub with hnow | ⟨e, he, hup, hin⟩
    · exact hnow
    · exact heffect.ended sub (hi.ended k e he hup sub hin)
  · intro e he
    rcases heffect.dropped e he with he | he
    · exact hi.dropped e he
    · exact he
  · intro k sub hm
    exact heffect.members k sub hm (hi.members k sub)

/-- **No subscriber is left hanging.** In every run: a subscription on an entry whose Upstream is
    empty is terminated; no entry that was deleted has a subscription on it; and a subscription
    that was registered and not removed is on the entry `Get` returns. -/
theorem subscribers_not_stranded {ups : UpID → UpstreamSub} {subs : SubID → Subscriber}
    {ops : List (Op K)} (hrun : Lib.run TrackRegistry.step (init ups subs) ops = some r) :
    (∀ k e, r.get k = some e → e.upstream = [] → ∀ sub ∈ e.downstream, r.Ended sub) ∧
      (∀ e ∈ r.dropped, e.downstream = []) ∧ ∀ k sub, (k, sub) ∈ r.members → r.On k sub := by
  have hi : Unstranded r := Lib.run_inv (fun _ _ _ hi h => hi.step h) (.init ups subs) hrun
  exact ⟨hi.ended, hi.dropped, hi.members⟩

theorem subscribers_not_stranded_upstream_gone :
    ∃ r : TrackRegistry Nat Nat, Lib.run step (init twoUps twoSubs)
        [.addUpstream 0 0 none, .addDownstreamSnapshotLargest 0 0,
          .addDownstreamSnapshotLargest 0 1, .removeUpstream 0 10, .removeDownstream 0 20] =
        some r ∧
      r.hasUpstream 0 = false ∧ r.On 0 1 ∧ r.Ended 1 := by
  obtain ⟨r, hr, hmem, hget⟩ := Lib.computes (o := Lib.run (step (K := Nat) (S := Nat))
      (init twoUps twoSubs) [.addUpstream 0 0 none, .addDownstreamSnapshotLargest 0 0,
        .addDownstreamSnapshotLargest 0 1, .removeUpstream 0 10, .removeDownstream 0 20])
    (P := fun r => (0, 1) ∈ r.members ∧ (r.get 0).map (·.upstream) = some []) (by decide +kernel)
  obtain ⟨hended, -, hmembers⟩ := subscribers_not_stranded hr
  obtain ⟨e, he, hup⟩ := map_eq_some_iff.mp hget
  have hon : r.On 0 1 := hmembers 0 1 hmem
  refine ⟨r, hr, by simp [hasUpstream_eq he, hup], hon, ?_⟩
  obtain ⟨e', he', hsub⟩ := hon
  cases he.symm.trans he'
  exact hended 0 e he hup 1 hsub

end TrackRegistry
end MoqGo.Relay
