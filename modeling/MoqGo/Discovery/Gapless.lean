import MoqGo.Discovery.Memory

/-!
# Watches of the Discovery store are gapless

A watch is owed the snapshot it started with and every change since (`Chan.offered`). The store
sends it that, in order, until the channel is full; then the watch is ended. So **what was sent is
a beginning of what is owed, and all of it while the watch lives**. Replaying what is owed gives
the store's records whatever happened since, so a living watch has been told exactly those.
-/

namespace MoqGo.Discovery

open Wire Relay List AList Function

/-! ## One half of the store -/

namespace Feed

variable {κ ι : Type} [DecidableEq κ] {ev : Event ι}

/-- What an event makes of a copy of the map. -/
def replay (key : ι → κ) (m : GoMap κ ι) : Event ι → GoMap κ ι
  | .publish info => m.insert (key info) info
  | .unpublish info => m.erase (key info)
  | .snapshotDone => m

/-- The copy after `events`, from nothing. -/
def replayAll (key : ι → κ) (events : List (Event ι)) : GoMap κ ι :=
  events.foldl (replay key) ∅

theorem replayAll_concat (key : ι → κ) (events : List (Event ι)) (ev : Event ι) :
    replayAll key (events ++ [ev]) = replay key (replayAll key events) ev := by
  rw [replayAll, foldl_append]
  rfl

/-- A snapshot names each key once, so the order of its events does not matter: a copy maps every
    key it names to the record there, and leaves the others as they were. -/
theorem lookup_publishes {key : ι → κ} (infos : List ι) :
    ∀ m : GoMap κ ι, (infos.map key).Nodup →
      (∀ info ∈ infos,
        ((infos.map Event.publish).foldl (replay key) m).lookup (key info) = some info) ∧
      ∀ k, k ∉ infos.map key →
        ((infos.map Event.publish).foldl (replay key) m).lookup k = m.lookup k := by
  induction infos with
  | nil => exact fun m _ => ⟨nofun, fun _ _ => rfl⟩
  | cons info infos ih =>
    intro m hn
    rw [map_cons, nodup_cons] at hn
    obtain ⟨hin, hout⟩ := ih (m.insert (key info) info) hn.2
    refine ⟨fun x hx => ?_, fun k hk => ?_⟩
    · rcases mem_cons.mp hx with rfl | hx
      · exact (hout _ hn.1).trans (lookup_insert m)
      · exact hin x hx
    · rw [map_cons, mem_cons, not_or] at hk
      exact (hout k hk.2).trans (lookup_insert_ne hk.1)

/-- The order a watcher relies on: the snapshot's records, one marker that it is complete, and only
    then live changes. -/
def Shaped (events : List (Event ι)) : Prop :=
  ∃ (infos : List ι) (live : List (Event ι)),
    events = infos.map .publish ++ .snapshotDone :: live ∧ .snapshotDone ∉ live

theorem Shaped.concat {events : List (Event ι)} (h : Shaped events) (hev : ev ≠ .snapshotDone) :
    Shaped (events ++ [ev]) := by
  obtain ⟨infos, live, rfl, hlive⟩ := h
  refine ⟨infos, live ++ [ev], by simp, ?_⟩
  intro hin
  rcases mem_append.mp hin with hin | hin
  · exact hlive hin
  · exact hev (mem_singleton.mp hin).symm

/-- A reader that has seen records only gets another record or the marker, never an `unpublish`. -/
theorem Shaped.next {rest : List (Event ι)} (infos : List ι)
    (h : Shaped (infos.map .publish ++ ev :: rest)) :
    (∃ info, ev = .publish info) ∨ ev = .snapshotDone := by
  obtain ⟨infos', live, heq, -⟩ := h
  induction infos generalizing infos' with
  | nil =>
    cases infos' with
    | nil => exact .inr (List.cons.inj heq).1
    | cons info infos' => exact .inl ⟨info, (List.cons.inj heq).1⟩
  | cons i infos ih =>
    cases infos' with
    | nil => cases (List.cons.inj heq).1
    | cons info infos' => exact ih infos' (List.cons.inj heq).2

theorem mem_replayAll_publishes {key : ι → κ} {k : κ} (infos : List ι) :
    k ∈ replayAll key (infos.map .publish) ↔ k ∈ infos.map key := by
  have hgen : ∀ m : GoMap κ ι, k ∈ (infos.map Event.publish).foldl (replay key) m ↔
      k ∈ m ∨ k ∈ infos.map key := by
    induction infos with
    | nil => simp
    | cons info infos ih =>
      intro m
      show k ∈ (infos.map Event.publish).foldl (replay key) (m.insert (key info) info) ↔ _
      rw [ih, mem_insert, map_cons, mem_cons]
      tauto
  rw [replayAll, hgen]
  simp

/-- What holds of a channel between the operations. `Watched` says that its watch goes on. -/
structure ChanOk (key : ι → κ) (entries : GoMap κ ι) (Watched : Prop) (c : Chan ι) : Prop where
  /-- Whether the watch goes on or not: what it misses is in `offered` too. -/
  owed : ∀ k, (replayAll key c.offered).lookup k = entries.lookup k
  sent : c.sent <+: c.offered
  live : Watched → c.sent = c.offered ∧ c.closed = false ∧ c.opened = true
  ended : ¬Watched → c.opened = true → c.closed = true
  /-- The reader takes from the front. -/
  waiting : c.buf <:+ c.sent
  shaped : c.opened = true → Shaped c.sent

/-- What holds of a half between the operations. -/
structure Gapless (key : ι → κ) (f : Feed κ ι) : Prop where
  keyed : ∀ k info, f.entries.lookup k = some info → key info = k
  nodup : f.watch.Nodup
  chans : ∀ w, ChanOk key f.entries (w ∈ f.watch) (f.chans w)

variable {key : ι → κ} {f f' : Feed κ ι} {w : WatchID}

theorem gapless_empty : Gapless key ({} : Feed κ ι) where
  keyed k info h := by simp at h
  nodup := nodup_nil
  chans w :=
    { owed := by simp [replayAll]
      sent := prefix_rfl
      live := by simp
      ended := by simp
      waiting := suffix_rfl
      shaped := by simp }

section

variable {entries : GoMap κ ι} {P Q : Prop} {c : Chan ι}

theorem ChanOk.congr (h : ChanOk key entries P c) (hiff : Q ↔ P) : ChanOk key entries Q c :=
  propext hiff ▸ h

theorem ChanOk.end_ (h : ChanOk key entries P c) (hQ : ¬Q) : ChanOk key entries Q c.end_ :=
  ⟨h.owed, h.sent, fun hq => absurd hq hQ, fun _ _ => rfl, h.waiting, h.shaped⟩

end

/-- The step behind every change: the map becomes `entries` and each watch is sent `ev`, which says
    the same (`hev`). -/
theorem Gapless.emit (h : f.Gapless key) {entries : GoMap κ ι} (hdone : ev ≠ .snapshotDone)
    (hkeyed : ∀ k info, entries.lookup k = some info → key info = k)
    (hev : ∀ m : GoMap κ ι, (∀ k, m.lookup k = f.entries.lookup k) →
      ∀ k, (replay key m ev).lookup k = entries.lookup k) :
    Gapless key (fanout { f with entries := entries } ev) := by
  refine ⟨hkeyed, h.nodup.filter _, fun w => ?_⟩
  have hc := h.chans w
  have howed : ∀ k, (replayAll key ((f.chans w).offered ++ [ev])).lookup k = entries.lookup k := by
    intro k
    rw [replayAll_concat]
    exact hev _ hc.owed k
  have hsent : (f.chans w).sent <+: (f.chans w).offered ++ [ev] :=
    hc.sent.trans (prefix_append _ _)
  simp only [fanout]
  by_cases hw : w ∈ f.watch
  · rw [if_pos hw, Chan.send]
    cases hf : (f.chans w).full with
    | true =>
      -- The watch misses `ev` and is over, so a prefix is all it will ever have.
      have hout : w ∉ f.watch.filter fun w => !(f.chans w).full := by simp [hf]
      exact ⟨howed, hsent, fun hin => absurd hin hout, fun _ _ => rfl, hc.waiting, hc.shaped⟩
    | false =>
      have hin : w ∈ f.watch.filter fun w => !(f.chans w).full := by simp [hw, hf]
      obtain ⟨hall, hlive⟩ := hc.live hw
      refine ⟨howed, ?_, fun _ => ⟨congrArg (· ++ [ev]) hall, hlive⟩, fun hout => absurd hin hout,
        ?_, fun ho => (hc.shaped ho).concat hdone⟩
      · show (f.chans w).sent ++ [ev] <+: (f.chans w).offered ++ [ev]
        rw [hall]
      · obtain ⟨t, ht⟩ := hc.waiting
        exact ⟨t, by rw [← ht]; exact (append_assoc ..).symm⟩
  · have hout : w ∉ f.watch.filter fun w => !(f.chans w).full :=
      fun hin => hw (mem_filter.mp hin).1
    rw [if_neg hw]
    exact ⟨howed, hsent, fun hin => absurd hin hout, fun _ => hc.ended hw, hc.waiting, hc.shaped⟩

theorem Gapless.publish (h : f.Gapless key) (info : ι) :
    (f.publish (key info) info).Gapless key := by
  refine h.emit nofun (fun k x hx => ?_) fun m hm k => ?_
  · rcases eq_or_ne k (key info) with rfl | hne
    · rw [lookup_insert, Option.some.injEq] at hx
      rw [hx]
    · rw [lookup_insert_ne hne] at hx
      exact h.keyed k x hx
  · show (m.insert (key info) info).lookup k = _
    rcases eq_or_ne k (key info) with rfl | hne
    · rw [lookup_insert, lookup_insert]
    · rw [lookup_insert_ne hne, lookup_insert_ne hne, hm k]

theorem Gapless.unpublish (h : f.Gapless key) (k : κ) : (f.unpublish k).Gapless key := by
  unfold Feed.unpublish
  split
  · exact h
  · next info hinfo =>
    have hk : key info = k := h.keyed k info hinfo
    refine h.emit nofun (fun k' x hx => ?_) fun m hm k' => ?_
    · rcases eq_or_ne k' k with rfl | hne
      · rw [lookup_erase] at hx
        cases hx
      · rw [lookup_erase_ne hne] at hx
        exact h.keyed k' x hx
    · show (m.erase (key info)).lookup k' = _
      rw [hk]
      rcases eq_or_ne k' k with rfl | hne
      · rw [lookup_erase, lookup_erase]
      · rw [lookup_erase_ne hne, lookup_erase_ne hne, hm k']

theorem Gapless.unpublishAll {keys : List κ} :
    ∀ {f : Feed κ ι}, f.Gapless key → (f.unpublishAll keys).Gapless key := by
  induction keys with
  | nil => exact fun h => h
  | cons k keys ih => exact fun h => ih (h.unpublish k)

/-- The snapshot ranges over the map in any order (`hp`), and replays to the map. -/
theorem Gapless.snapshot (h : f.Gapless key) {infos : List ι}
    (hp : infos.Perm (f.entries.entries.map (·.2))) (k : κ) :
    (replayAll key (infos.map .publish ++ [.snapshotDone])).lookup k = f.entries.lookup k := by
  have hkeys : (infos.map key).Perm f.entries.keys := by
    have hmap : (f.entries.entries.map (·.2)).map key = f.entries.keys := by
      rw [map_map]
      refine map_congr_left fun x hx => ?_
      exact h.keyed x.1 x.2 (mem_dlookup f.entries.nodupKeys hx)
    exact hmap ▸ hp.map key
  obtain ⟨hin, hout⟩ := lookup_publishes infos ∅ (hkeys.nodup_iff.mpr f.entries.nodupKeys)
  rw [replayAll_concat]
  show ((infos.map Event.publish).foldl (replay key) ∅).lookup k = _
  cases hl : f.entries.lookup k with
  | none =>
    rw [hout k, lookup_empty]
    rw [hkeys.mem_iff]
    exact lookup_eq_none.mp hl
  | some info =>
    have hmem : info ∈ infos := by
      rw [hp.mem_iff]
      exact mem_map_of_mem (of_mem_dlookup hl)
    rw [← h.keyed k info hl]
    exact hin info hmem

/-- The snapshot is taken and the watch registered under one lock, so no change falls between. -/
theorem Gapless.open_ (h : f.Gapless key) {infos : List ι} (hnew : (f.chans w).opened = false)
    (hp : infos.Perm (f.entries.entries.map (·.2))) (bufferSize : Nat) :
    (f.open_ w infos bufferSize).Gapless key := by
  refine ⟨h.keyed, ?_, fun w' => ?_⟩
  · refine nodup_append.mpr ⟨h.nodup, nodup_singleton w, ?_⟩
    intro x hx y hy hxy
    rw [hxy, mem_singleton.mp hy] at hx
    rw [((h.chans w).live hx).2.2] at hnew
    cases hnew
  · rcases eq_or_ne w' w with rfl | hne
    · rw [show (f.open_ w' infos bufferSize).chans w' = _ from update_self ..]
      have hin : w' ∈ f.watch ++ [w'] := mem_append_right _ mem_cons_self
      exact ⟨h.snapshot hp, prefix_rfl, fun _ => ⟨rfl, rfl, rfl⟩, fun hout => absurd hin hout,
        suffix_rfl, fun _ => ⟨infos, [], rfl, nofun⟩⟩
    · rw [show (f.open_ w infos bufferSize).chans w' = _ from update_of_ne hne ..]
      exact (h.chans w').congr (by simp [Feed.open_, hne])

theorem Gapless.cancel (h : f.Gapless key) (w : WatchID) : (f.cancel w).Gapless key := by
  unfold Feed.cancel
  split
  · refine ⟨h.keyed, h.nodup.erase _, fun w' => ?_⟩
    dsimp only
    rcases eq_or_ne w' w with rfl | hne
    · rw [update_self]
      exact (h.chans w').end_ h.nodup.not_mem_erase
    · rw [update_of_ne hne]
      exact (h.chans w').congr (by simp [h.nodup.mem_erase_iff, hne])
  · exact h

theorem Gapless.close (h : f.Gapless key) : f.close.Gapless key := by
  refine ⟨h.keyed, nodup_nil, fun w => ?_⟩
  simp only [Feed.close]
  split
  · exact (h.chans w).end_ not_mem_nil
  · next hw => exact (h.chans w).congr (by simp [hw])

theorem Gapless.receive (h : f.Gapless key) (hr : f.receive w = some (ev, f')) :
    f'.Gapless key := by
  unfold Feed.receive at hr
  split at hr
  · cases hr
  · next x rest hbuf =>
    cases hr
    refine ⟨h.keyed, h.nodup, fun w' => ?_⟩
    dsimp only
    rcases eq_or_ne w' w with rfl | hne
    · have hwaiting := (h.chans w').waiting
      rw [hbuf] at hwaiting
      rw [update_self]
      exact { h.chans w' with waiting := (suffix_cons _ rest).trans hwaiting }
    · rw [update_of_ne hne]
      exact h.chans w'

theorem receive_entries (hr : f.receive w = some (ev, f')) : f'.entries = f.entries := by
  unfold Feed.receive at hr
  split at hr
  · cases hr
  · cases hr
    rfl

theorem cancel_entries (w : WatchID) : (f.cancel w).entries = f.entries := by
  unfold Feed.cancel
  split <;> rfl

/-- From `f` to `f'` the channel of `w` gets events at its end at most, and nothing reads it. -/
def Grows (w : WatchID) (f f' : Feed κ ι) : Prop :=
  (f'.chans w).opened = (f.chans w).opened ∧ ∃ more, (f'.chans w).sent = (f.chans w).sent ++ more ∧
    (f'.chans w).buf = (f.chans w).buf ++ more

theorem Grows.of_end (h : f'.chans w = f.chans w ∨ f'.chans w = (f.chans w).end_) :
    Grows w f f' := by
  rcases h with h | h <;> rw [Grows, h]
  · exact ⟨rfl, [], (append_nil _).symm, (append_nil _).symm⟩
  · exact ⟨rfl, [], (append_nil _).symm, (append_nil _).symm⟩

theorem Grows.of_chan (h : f'.chans w = f.chans w) : Grows w f f' := .of_end (.inl h)

theorem Grows.refl (w : WatchID) (f : Feed κ ι) : Grows w f f := .of_chan rfl

theorem Grows.trans {f₁ f₂ f₃ : Feed κ ι} (h : Grows w f₁ f₂) (h' : Grows w f₂ f₃) :
    Grows w f₁ f₃ := by
  obtain ⟨ho, more, hs, hb⟩ := h
  obtain ⟨ho', more', hs', hb'⟩ := h'
  refine ⟨ho'.trans ho, more ++ more', ?_, ?_⟩
  · rw [hs', hs, append_assoc]
  · rw [hb', hb, append_assoc]

theorem Grows.fanout (w : WatchID) (f : Feed κ ι) (ev : Event ι) : Grows w f (f.fanout ev) := by
  unfold Grows Feed.fanout Chan.send Chan.end_
  dsimp only
  split
  · split
    · exact ⟨rfl, [], (append_nil _).symm, (append_nil _).symm⟩
    · exact ⟨rfl, [ev], rfl, rfl⟩
  · exact ⟨rfl, [], (append_nil _).symm, (append_nil _).symm⟩

theorem Grows.unpublish (w : WatchID) (f : Feed κ ι) (k : κ) : Grows w f (f.unpublish k) := by
  unfold Feed.unpublish
  split
  · exact Grows.refl w f
  · exact Grows.fanout w { f with entries := _ } _

theorem Grows.unpublishAll (w : WatchID) (keys : List κ) :
    ∀ f : Feed κ ι, Grows w f (f.unpublishAll keys) := by
  induction keys with
  | nil => exact Grows.refl w
  | cons k keys ih => exact fun f => (Grows.unpublish w f k).trans (ih _)

theorem mem_unpublishAll {keys : List κ} :
    ∀ {f : Feed κ ι} {k : κ}, k ∈ (f.unpublishAll keys).entries → k ∈ f.entries ∧ k ∉ keys := by
  induction keys with
  | nil => exact fun h => ⟨h, nofun⟩
  | cons k₀ keys ih =>
    intro f k h
    obtain ⟨hmem, hk⟩ := ih h
    have hmem' : k ∈ f.entries ∧ k ≠ k₀ := by
      unfold Feed.unpublish at hmem
      split at hmem
      · next hnone =>
        refine ⟨hmem, ?_⟩
        rintro rfl
        exact lookup_eq_none.mp hnone hmem
      · exact ⟨(mem_erase.mp hmem).2, (mem_erase.mp hmem).1⟩
    exact ⟨hmem'.1, fun hin => (mem_cons.mp hin).elim hmem'.2 hk⟩

end Feed

/-! ## The store -/

namespace MemoryStore

variable {K : Type} [DecidableEq K] {addr : Addr} {s : MemoryStore K}

/-- No relay that was withdrawn is advertised. -/
def Withdrawn {κ ι : Type} [DecidableEq κ] (f : Feed (κ × Addr) ι) (addr : Addr) : Prop :=
  ∀ k ∈ f.entries, k.2 ≠ addr

/-- Both halves are gapless, and tombstones hold. -/
structure Sound (s : MemoryStore K) : Prop where
  tracks : s.tracks.Gapless TrackInfo.key
  namespaces : s.namespaces.Gapless NamespaceInfo.key
  withdrawn : ∀ addr ∈ s.withdrawn, Withdrawn s.tracks addr ∧ Withdrawn s.namespaces addr

theorem sound_new (n : Int) : (new n : MemoryStore K).Sound := by
  unfold new withWatchBufferSize
  split <;> exact ⟨Feed.gapless_empty, Feed.gapless_empty, nofun⟩

theorem withdrawn_publish {κ ι : Type} [DecidableEq κ] {f : Feed (κ × Addr) ι} {k : κ × Addr}
    {info : ι} (h : Withdrawn f addr) (hk : k.2 ≠ addr) : Withdrawn (f.publish k info) addr := by
  intro k' hk'
  rcases (mem_insert _).mp hk' with rfl | hk'
  · exact hk
  · exact h k' hk'

theorem withdrawn_unpublishAll {κ ι : Type} [DecidableEq κ] {f : Feed (κ × Addr) ι}
    {keys : List (κ × Addr)} (h : Withdrawn f addr) : Withdrawn (f.unpublishAll keys) addr :=
  fun k hk => h k (Feed.mem_unpublishAll hk).1

theorem withdrawn_withdraw {κ ι : Type} [DecidableEq κ] {f : Feed (κ × Addr) ι}
    {keys : List (κ × Addr)} (hp : keys.Perm (f.entries.keys.filter (·.2 = addr))) :
    Withdrawn (f.unpublishAll keys) addr := by
  intro k hk haddr
  obtain ⟨hmem, hnot⟩ := Feed.mem_unpublishAll hk
  refine hnot (hp.mem_iff.mpr (mem_filter.mpr ⟨?_, by simpa using haddr⟩))
  exact mem_keys.mp hmem

theorem withdrawn_of_entries {κ ι : Type} [DecidableEq κ] {f f' : Feed (κ × Addr) ι}
    (h : Withdrawn f addr) (he : f'.entries = f.entries) : Withdrawn f' addr := by
  intro k hk
  rw [he] at hk
  exact h k hk

theorem publishable_ok (h : s.publishable addr = .ok ()) : addr ∉ s.withdrawn := by
  unfold publishable at h
  split at h
  · cases h
  · split at h
    · cases h
    · next hn => exact hn

/-- The record that is stored, stamped or not, is of a relay that was not withdrawn. -/
theorem withdrawn_stored {κ ι : Type} [DecidableEq κ] {f : Feed (κ × Addr) ι} {k : κ × Addr}
    {info : ι} (hp : s.publishable k.2 = .ok ()) (ha : addr ∈ s.withdrawn) (h : Withdrawn f addr) :
    Withdrawn (f.publish k info) addr := by
  refine withdrawn_publish h ?_
  rintro rfl
  exact publishable_ok hp ha

theorem Sound.publishTrack (h : s.Sound) (info : TrackInfo K) (now : Nat) :
    (s.settle (s.publishTrack info now)).Sound := by
  unfold MemoryStore.publishTrack
  cases hp : s.publishable info.relayAddr with
  | error e => exact h
  | ok u =>
    refine ⟨h.tracks.publish _, h.namespaces, fun addr ha => ⟨?_, (h.withdrawn addr ha).2⟩⟩
    refine withdrawn_stored ?_ ha (h.withdrawn addr ha).1
    split <;> exact hp

theorem Sound.publishNamespace (h : s.Sound) (info : NamespaceInfo) (now : Nat) :
    (s.settle (s.publishNamespace info now)).Sound := by
  unfold MemoryStore.publishNamespace
  cases hp : s.publishable info.relayAddr with
  | error e => exact h
  | ok u =>
    refine ⟨h.tracks, h.namespaces.publish _, fun addr ha => ⟨(h.withdrawn addr ha).1, ?_⟩⟩
    refine withdrawn_stored ?_ ha (h.withdrawn addr ha).2
    split <;> exact hp

theorem Sound.withdraw (h : s.Sound) {trackKeys : List (K × Addr)}
    {nsKeys : List (TrackNamespace × Addr)}
    (ht : trackKeys.Perm (s.tracks.entries.keys.filter (·.2 = addr)))
    (hn : nsKeys.Perm (s.namespaces.entries.keys.filter (·.2 = addr))) :
    (s.settle (s.withdraw addr trackKeys nsKeys)).Sound := by
  unfold MemoryStore.withdraw
  split
  · exact h
  · refine ⟨h.tracks.unpublishAll, h.namespaces.unpublishAll, fun a ha => ?_⟩
    rcases mem_cons.mp ha with rfl | ha
    · exact ⟨withdrawn_withdraw ht, withdrawn_withdraw hn⟩
    · obtain ⟨h₁, h₂⟩ := h.withdrawn a ha
      exact ⟨withdrawn_unpublishAll h₁, withdrawn_unpublishAll h₂⟩

theorem Sound.step {s' : MemoryStore K} {op : Op K} (h : s.Sound) (hs : s.step op = some s') :
    s'.Sound := by
  cases op with
  | publishTrack info now =>
    cases hs
    exact h.publishTrack info now
  | unpublishTrack key relayAddr =>
    cases hs
    unfold MemoryStore.unpublishTrack
    split
    · exact h
    · refine ⟨h.tracks.unpublish _, h.namespaces, fun addr ha => ⟨?_, (h.withdrawn addr ha).2⟩⟩
      exact @withdrawn_unpublishAll _ _ _ _ _ [(key, relayAddr)] (h.withdrawn addr ha).1
  | publishNamespace info now =>
    cases hs
    exact h.publishNamespace info now
  | unpublishNamespace pfx relayAddr =>
    cases hs
    unfold MemoryStore.unpublishNamespace
    split
    · exact h
    · refine ⟨h.tracks, h.namespaces.unpublish _, fun addr ha => ⟨(h.withdrawn addr ha).1, ?_⟩⟩
      exact @withdrawn_unpublishAll _ _ _ _ _ [(pfx, relayAddr)] (h.withdrawn addr ha).2
  | withdraw addr trackKeys nsKeys =>
    obtain ⟨⟨ht, hn⟩, rfl⟩ := Lib.guard_iff.mp hs
    exact h.withdraw ht hn
  | watchTracks w infos =>
    obtain ⟨⟨hp, hnew⟩, rfl⟩ := Lib.guard_iff.mp hs
    unfold MemoryStore.watchTracks
    split
    · exact h
    · exact ⟨h.tracks.open_ hnew hp _, h.namespaces, h.withdrawn⟩
  | watchNamespaces w infos =>
    obtain ⟨⟨hp, hnew⟩, rfl⟩ := Lib.guard_iff.mp hs
    unfold MemoryStore.watchNamespaces
    split
    · exact h
    · exact ⟨h.tracks, h.namespaces.open_ hnew hp _, h.withdrawn⟩
  | receiveTrack w =>
    obtain ⟨⟨ev, f⟩, hr, rfl⟩ := Option.map_eq_some_iff.mp hs
    refine ⟨h.tracks.receive hr, h.namespaces, fun addr ha => ⟨?_, (h.withdrawn addr ha).2⟩⟩
    exact withdrawn_of_entries (h.withdrawn addr ha).1 (Feed.receive_entries hr)
  | receiveNamespace w =>
    obtain ⟨⟨ev, f⟩, hr, rfl⟩ := Option.map_eq_some_iff.mp hs
    refine ⟨h.tracks, h.namespaces.receive hr, fun addr ha => ⟨(h.withdrawn addr ha).1, ?_⟩⟩
    exact withdrawn_of_entries (h.withdrawn addr ha).2 (Feed.receive_entries hr)
  | cancelTracks w =>
    cases hs
    refine ⟨h.tracks.cancel w, h.namespaces, fun addr ha => ⟨?_, (h.withdrawn addr ha).2⟩⟩
    exact withdrawn_of_entries (h.withdrawn addr ha).1 (Feed.cancel_entries w)
  | cancelNamespaces w =>
    cases hs
    refine ⟨h.tracks, h.namespaces.cancel w, fun addr ha => ⟨(h.withdrawn addr ha).1, ?_⟩⟩
    exact withdrawn_of_entries (h.withdrawn addr ha).2 (Feed.cancel_entries w)
  | close =>
    cases hs
    unfold MemoryStore.close
    split
    · exact h
    · exact ⟨h.tracks.close, h.namespaces.close, h.withdrawn⟩

/-! A tombstone is never lifted: a call that fails leaves the store alone, and none that succeeds
takes a name out of `withdrawn`. -/

theorem settle_withdrawn {r : Except StoreError (MemoryStore K)} (h : addr ∈ s.withdrawn)
    (hr : ∀ s', r = .ok s' → addr ∈ s'.withdrawn) : addr ∈ (s.settle r).withdrawn := by
  cases r with
  | error e => exact h
  | ok s' => exact hr s' rfl

theorem step_withdrawn {s' : MemoryStore K} {op : Op K} (h : addr ∈ s.withdrawn)
    (hs : s.step op = some s') : addr ∈ s'.withdrawn := by
  cases op with
  | publishTrack info now | publishNamespace info now =>
    cases hs
    refine settle_withdrawn h fun s' hs' => ?_
    simp only [publishTrack, publishNamespace] at hs'
    cases hp : s.publishable info.relayAddr with
    | error e =>
      rw [hp] at hs'
      cases hs'
    | ok u =>
      rw [hp] at hs'
      cases hs'
      exact h
  | unpublishTrack key relayAddr | unpublishNamespace key relayAddr =>
    cases hs
    refine settle_withdrawn h fun s' hs' => ?_
    simp only [unpublishTrack, unpublishNamespace] at hs'
    split at hs' <;> cases hs'
    exact h
  | withdraw a trackKeys nsKeys =>
    obtain ⟨-, rfl⟩ := Lib.guard_iff.mp hs
    refine settle_withdrawn h fun s' hs' => ?_
    unfold withdraw at hs'
    split at hs' <;> cases hs'
    exact mem_cons_of_mem _ h
  | watchTracks w infos | watchNamespaces w infos =>
    obtain ⟨-, rfl⟩ := Lib.guard_iff.mp hs
    refine settle_withdrawn h fun s' hs' => ?_
    simp only [watchTracks, watchNamespaces] at hs'
    split at hs' <;> cases hs'
    exact h
  | receiveTrack w | receiveNamespace w =>
    obtain ⟨x, -, rfl⟩ := Option.map_eq_some_iff.mp hs
    exact h
  | cancelTracks w | cancelNamespaces w =>
    cases hs
    exact h
  | close =>
    cases hs
    unfold close
    split <;> exact h

end MemoryStore

namespace Feed

variable {κ ι : Type} [DecidableEq κ]

/-- Every watch not ended has been told the records there are. -/
def Told (key : ι → κ) (f : Feed κ ι) : Prop :=
  ∀ w, (f.chans w).opened = true → (f.chans w).closed = false →
    ∀ k, (replayAll key (f.chans w).sent).lookup k = f.entries.lookup k

/-- A watch is sent what it is owed, without a gap, and is ended where it misses an event. -/
def EndedAtMiss (f : Feed κ ι) : Prop :=
  ∀ w, (f.chans w).opened = true → (f.chans w).sent <+: (f.chans w).offered ∧
    ((f.chans w).sent ≠ (f.chans w).offered → (f.chans w).closed = true)

theorem Gapless.told {key : ι → κ} {f : Feed κ ι} (h : f.Gapless key) : f.Told key := by
  intro w ho hc k
  have hw : w ∈ f.watch := by
    by_contra hw
    rw [(h.chans w).ended hw ho] at hc
    cases hc
  rw [((h.chans w).live hw).1]
  exact (h.chans w).owed k

theorem Gapless.endedAtMiss {key : ι → κ} {f : Feed κ ι} (h : f.Gapless key) : f.EndedAtMiss := by
  intro w ho
  refine ⟨(h.chans w).sent, fun hmiss => (h.chans w).ended (fun hw => ?_) ho⟩
  exact hmiss ((h.chans w).live hw).1

end Feed

namespace MemoryStore

variable {K : Type} [DecidableEq K]

/-- **Watches of the store are gapless**: one that is not ended has been sent what makes up the
    store's records, one that misses an event is ended there; and a relay that was withdrawn is
    not advertised again. -/
theorem watches_gapless {n : Int} {acts : List (Op K)} {s : MemoryStore K}
    (hrun : Lib.run step (new n) acts = some s) :
    (s.tracks.Told TrackInfo.key ∧ s.namespaces.Told NamespaceInfo.key) ∧
    (s.tracks.EndedAtMiss ∧ s.namespaces.EndedAtMiss) ∧
    ∀ (before after : List (Op K)) (addr : Addr) (trackKeys : List (K × Addr))
      (nsKeys : List (TrackNamespace × Addr)) (s₀ : MemoryStore K),
      acts = before ++ .withdraw addr trackKeys nsKeys :: after →
      Lib.run step (new n) before = some s₀ → s₀.closed = false →
      Withdrawn s.tracks addr ∧ Withdrawn s.namespaces addr := by
  have h : s.Sound := Lib.run_inv (fun _ _ _ h => h.step) (sound_new n) hrun
  refine ⟨⟨h.tracks.told, h.namespaces.told⟩, ⟨h.tracks.endedAtMiss, h.namespaces.endedAtMiss⟩, ?_⟩
  intro before after addr trackKeys nsKeys s₀ hacts hbefore hopen
  rw [hacts] at hrun
  obtain ⟨t, ht, hrest⟩ := Lib.run_append.mp hrun
  rw [hbefore] at ht
  cases ht
  obtain ⟨s₁, hs₁, hafter⟩ := Lib.run_cons.mp hrest
  have hmem : addr ∈ s₁.withdrawn := by
    obtain ⟨-, rfl⟩ := Lib.guard_iff.mp hs₁
    simp only [withdraw, hopen, Bool.false_eq_true, if_false]
    exact mem_cons_self
  have hlater : addr ∈ s.withdrawn :=
    Lib.run_inv (P := fun s => addr ∈ s.withdrawn) (fun _ _ _ => step_withdrawn) hmem hafter
  exact h.withdrawn addr hlater

/-- A buffer of one: the watch gets its (empty) snapshot and two changes, the third ends it. -/
theorem watches_gapless_overflow :
    ∃ s : MemoryStore Nat, (s.namespaces.chans 0).sent =
        [.snapshotDone, .publish ⟨[[1]], "a", 5⟩, .publish ⟨[[2]], "a", 5⟩] ∧
      (s.namespaces.chans 0).closed = true ∧ s.namespaces.EndedAtMiss := by
  refine (Lib.computes_two (o := Lib.run step (new 1)
    [.watchNamespaces 0 [], .receiveNamespace 0, .publishNamespace ⟨[[1]], "a", 0⟩ 5,
      .publishNamespace ⟨[[2]], "a", 0⟩ 5, .publishNamespace ⟨[[3]], "a", 0⟩ 5])
    (by decide +kernel) ?_).imp fun _ => And.right
  exact fun _ hs _ _ => (watches_gapless hs).2.1.2

end MemoryStore
end MoqGo.Discovery
