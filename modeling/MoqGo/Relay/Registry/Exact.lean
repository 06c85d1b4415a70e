import MoqGo.Relay.Registry.Namespaces

/-!
# What a namespace subscriber is told is what there is

Every operation on the registry that changes the sources of a namespace tells each subscriber,
and a subscriber that comes, or moves its prefix, is brought up to date from the sources there
are. So the entries of the SUBSCRIBE_NAMESPACE subscribers stay `Exact` for the sources of the
registry (`Mirrors`), whatever is done and in whatever order the maps are walked.

The proof follows the sources: an operation adds or removes them one at a time, and
`addSourceLocked` and `removeSourceLocked` carry `Mirrors` along with each.
-/

namespace MoqGo.Relay
namespace NamespaceRegistry

open Lib Wire Discovery SubscriberEntry List AList Function

/-! ## Sources -/

/-- The namespaces of the announced publishers among `ps`, one for each publisher. -/
def announcedOf (ps : List PublisherEntry) : List TrackNamespace :=
  (ps.filter (·.announced)).map (·.ns)

/-- The number of a namespace's sources: announced publishers here and relays elsewhere. -/
def sources (r : NamespaceRegistry) (ns : TrackNamespace) : Nat :=
  (announcedOf r.publishers).count ns + (r.relays ns).length

@[simp] theorem announcedOf_append (ps qs : List PublisherEntry) :
    announcedOf (ps ++ qs) = announcedOf ps ++ announcedOf qs := by
  simp [announcedOf]

variable {p : PublisherEntry} {r r' : NamespaceRegistry} {src : TrackNamespace → Nat} {s : EntryID}
  {ns : TrackNamespace} {e : PubID} {ps qs : List PublisherEntry} {clock : Clock} {addr : Addr}
  {ad : TrackNamespace × Addr} {drops : List (TrackNamespace × Addr)}

theorem announcedOf_cons_of_announced (h : p.announced = true) (ps : List PublisherEntry) :
    announcedOf (p :: ps) = p.ns :: announcedOf ps := by
  simp [announcedOf, h]

theorem announcedOf_cons_of_not (h : p.announced = false) (ps : List PublisherEntry) :
    announcedOf (p :: ps) = announcedOf ps := by
  simp [announcedOf, h]

/-- Every namespace in `remote` has a relay, and names none twice. -/
def RelaysOk (r : NamespaceRegistry) : Prop :=
  ∀ ns rs, r.remote.lookup ns = some rs → rs ≠ [] ∧ rs.Nodup

/-! `namespaceSources` counts in two loops, over the publishers and over `remote`. -/

theorem counts_publishers (pfx : TrackNamespace) (ps : List PublisherEntry) :
    ∀ {c : GoMap TrackNamespace Nat} {n : TrackNamespace → Nat}, Counts c n →
      Counts
        (ps.foldl (fun counts p =>
          if p.announced && p.ns.hasPrefix pfx then more counts p.ns 1 else counts) c)
        (fun ns => n ns + under (announcedOf ps).count pfx ns) := by
  induction ps with
  | nil =>
    intro c n h
    exact h.congr fun ns => by simp [announcedOf, under]
  | cons p ps ih =>
    intro c n h
    rw [foldl_cons]
    by_cases ha : p.announced = true
    · by_cases hp : pfx <+: p.ns
      · rw [if_pos (by simp [ha, hp])]
        refine (ih (h.more p.ns Nat.one_pos)).congr fun ns => ?_
        rw [announcedOf_cons_of_announced ha]
        rcases eq_or_ne ns p.ns with rfl | hne
        · simp only [under, if_pos hp, update_self, count_cons_self]
          omega
        · simp only [under, update_of_ne hne, count_cons_of_ne hne.symm]
      · rw [if_neg (by simp [hp])]
        refine (ih h).congr fun ns => ?_
        rw [announcedOf_cons_of_announced ha]
        rcases eq_or_ne ns p.ns with rfl | hne
        · simp only [under, if_neg hp]
        · simp only [under, count_cons_of_ne hne.symm]
    · have ha : p.announced = false := by simpa using ha
      rw [if_neg (by simp [ha]), announcedOf_cons_of_not ha]
      exact ih h

theorem counts_remote (pfx : TrackNamespace)
    (rns : List (Sigma fun _ : TrackNamespace => List Addr)) :
    ∀ {c : GoMap TrackNamespace Nat} {n : TrackNamespace → Nat}, rns.NodupKeys →
      (∀ rn ∈ rns, rn.2 ≠ []) → Counts c n →
      Counts
        (rns.foldl (fun counts rn =>
          if TrackNamespace.hasPrefix rn.1 pfx then more counts rn.1 rn.2.length
          else counts) c)
        (fun ns => n ns + under (fun ns => ((rns.dlookup ns).getD []).length) pfx ns) := by
  induction rns with
  | nil =>
    intro c n _ _ h
    exact h.congr fun ns => by simp [under]
  | cons rn rns ih =>
    intro c n hd hne h
    obtain ⟨hnew, hd⟩ := nodupKeys_cons.mp hd
    have hrest : ∀ x ∈ rns, x.2 ≠ [] := fun x hx => hne x (mem_cons_of_mem rn hx)
    rw [foldl_cons]
    have hlook : (rns.dlookup rn.1).getD [] = [] := by
      rw [dlookup_eq_none.mpr hnew, Option.getD_none]
    have hcons : ((rn :: rns).dlookup rn.1).getD [] = rn.2 := by
      rw [dlookup_cons_eq rns rn.1 rn.2, Option.getD_some]
    by_cases hp : pfx <+: rn.1
    · have hpos : 0 < rn.2.length := length_pos_iff.mpr (hne rn mem_cons_self)
      rw [if_pos (TrackNamespace.hasPrefix_iff.mpr hp)]
      refine (ih hd hrest (h.more rn.1 hpos)).congr fun ns => ?_
      rcases eq_or_ne ns rn.1 with rfl | hne
      · simp only [under, if_pos hp, update_self, hlook, hcons, length_nil]
        omega
      · simp only [under, update_of_ne hne, dlookup_cons_ne rns rn hne]
    · rw [if_neg (by simpa using hp)]
      refine (ih hd hrest h).congr fun ns => ?_
      rcases eq_or_ne ns rn.1 with rfl | hne
      · simp only [under, if_neg hp]
      · simp only [under, dlookup_cons_ne rns rn hne]

theorem counts_namespaceSources (h : r.RelaysOk) (pfx : TrackNamespace) :
    Counts (r.namespaceSources pfx) (under r.sources pfx) := by
  have hne : ∀ rn ∈ r.remote.entries, rn.2 ≠ [] := by
    intro rn hrn
    exact (h rn.1 rn.2 (mem_dlookup r.remote.nodupKeys hrn)).1
  refine (counts_remote pfx r.remote.entries r.remote.nodupKeys hne
    (counts_publishers pfx r.publishers Counts.empty)).congr fun ns => ?_
  rw [Nat.zero_add]
  unfold under
  split <;> rfl

/-! ## Subscribers -/

/-- Every SUBSCRIBE_NAMESPACE subscriber is exact for the sources `src`. -/
def Mirrors (r : NamespaceRegistry) (src : TrackNamespace → Nat) : Prop :=
  ∀ s ∈ r.subscribers, (r.subs s).wantsTracks = false → (r.subs s).Exact src

theorem Mirrors.of_subs (h : r.Mirrors src) (hs : ∀ s ∈ r'.subscribers, s ∈ r.subscribers)
    (he : r'.subs = r.subs) : r'.Mirrors src := by
  intro s hs' hw
  rw [he] at hw ⊢
  exact h s (hs s hs') hw

theorem Mirrors.update {e : SubscriberEntry} (h : r.Mirrors src)
    (hw : e.wantsTracks = (r.subs s).wantsTracks)
    (he : (r.subs s).wantsTracks = false → (r.subs s).Exact src → e.Exact src) :
    Mirrors { r with subs := Function.update r.subs s e } src := by
  intro t ht hwt
  rcases eq_or_ne t s with rfl | hne
  · simp only [update_self] at hwt ⊢
    exact he (hw ▸ hwt) (h t ht (hw ▸ hwt))
  · simp only [update_of_ne hne] at hwt ⊢
    exact h t ht hwt

/-- The sources change and every subscriber is told, under one lock. -/
theorem Mirrors.eachSubscriber {src' : TrackNamespace → Nat}
    {f : EntryID → SubscriberEntry → SubscriberEntry} (h : r.Mirrors src)
    (hw : ∀ s e, (f s e).wantsTracks = e.wantsTracks)
    (he : ∀ s (e : SubscriberEntry), e.wantsTracks = false → e.Exact src → (f s e).Exact src') :
    (r.eachSubscriber f).Mirrors src' := by
  intro s hs hws
  have hsub : (r.eachSubscriber f).subs s = f s (r.subs s) := if_pos hs
  rw [hsub] at hws ⊢
  rw [hw] at hws
  exact he s _ hws (h s hs hws)

theorem Mirrors.addSourceLocked (h : r.Mirrors src) (clock : Clock) (ns : TrackNamespace) :
    (r.addSourceLocked clock ns).Mirrors (Function.update src ns (src ns + 1)) := by
  refine h.eachSubscriber (fun s e => ?_) fun s e hw he => he.addSource hw (clock s) ns
  exact addSource_wantsTracks (clock s) ns e

theorem Mirrors.removeSourceLocked (h : r.Mirrors src) (clock : Clock) (hs : 0 < src ns) :
    (r.removeSourceLocked clock ns).Mirrors (Function.update src ns (src ns - 1)) := by
  refine h.eachSubscriber (fun s e => ?_) fun s e hw he => he.removeSource hw (clock s) hs
  exact removeSource_wantsTracks (clock s) ns e

/-- **What holds between the operations.** -/
structure Sound (r : NamespaceRegistry) : Prop where
  /-- An entry's pointer is in the list once, so a removal takes one source at most. -/
  refs : (r.publishers.map (·.ref)).Nodup
  relaysOk : r.RelaysOk
  mirrors : r.Mirrors r.sources

theorem sources_congr (hp : r'.publishers = r.publishers) (hr : r'.remote = r.remote) :
    r'.sources = r.sources := by
  funext ns
  rw [sources, sources, hp, relays, relays, hr]

theorem Sound.congr (h : r.Sound) (hp : r'.publishers = r.publishers) (hr : r'.remote = r.remote)
    (hs : r'.subscribers = r.subscribers) (he : r'.subs = r.subs) : r'.Sound := by
  refine ⟨by rw [hp]; exact h.refs, ?_, ?_⟩
  · intro ns rs hl
    rw [hr] at hl
    exact h.relaysOk ns rs hl
  · rw [sources_congr hp hr]
    exact h.mirrors.of_subs (fun s hs' => hs ▸ hs') he

theorem sound_init : init.Sound := by
  refine ⟨nodup_nil, ?_, ?_⟩
  · intro ns rs h
    simp [init] at h
  · intro s hs
    simp [init] at hs

/-! ## Publishers -/

/-- The publisher `find?` returns is the only one with its pointer. -/
theorem Sound.split (h : r.Sound) (hf : r.publishers.find? (·.ref == e) = some p) :
    p.ref = e ∧ ∃ ps qs, r.publishers = ps ++ p :: qs ∧ (∀ q ∈ ps, q.ref ≠ e) ∧
      ∀ q ∈ qs, q.ref ≠ e := by
  have hpe : p.ref = e := by simpa using List.find?_some hf
  obtain ⟨ps, qs, hsplit⟩ := append_of_mem (mem_of_find?_eq_some hf)
  have hnd := h.refs
  rw [hsplit, map_append, map_cons, nodup_append, nodup_cons] at hnd
  refine ⟨hpe, ps, qs, hsplit, ?_, ?_⟩
  · intro q hq hqe
    exact hnd.2.2 q.ref (mem_map_of_mem hq) p.ref mem_cons_self (hqe.trans hpe.symm)
  · intro q hq hqe
    apply hnd.2.1.1
    rw [hpe, ← hqe]
    exact mem_map_of_mem hq

theorem Sound.registerPublisher (h : r.Sound) (he : ∀ p ∈ r.publishers, p.ref ≠ e)
    (ns : TrackNamespace) (session : SessionID) : (r.registerPublisher e ns session).Sound := by
  have hsrc : (r.registerPublisher e ns session).sources = r.sources := by
    funext a
    simp [sources, NamespaceRegistry.registerPublisher, announcedOf, relays]
  refine ⟨?_, h.relaysOk, ?_⟩
  · show ((r.publishers ++ [_]).map PublisherEntry.ref).Nodup
    rw [map_append, nodup_append]
    refine ⟨h.refs, nodup_singleton _, ?_⟩
    intro x hx y hy
    obtain ⟨p, hp, rfl⟩ := mem_map.mp hx
    rw [map_singleton, mem_singleton] at hy
    exact hy ▸ he p hp
  · rw [hsrc]
    exact h.mirrors.of_subs (fun _ hs => hs) rfl

theorem announcedOf_mid_of_not (h : p.announced = false) (ps qs : List PublisherEntry) :
    announcedOf (ps ++ p :: qs) = announcedOf (ps ++ qs) := by
  rw [announcedOf_append, announcedOf_append, announcedOf_cons_of_not h]

/-- `r'` has one announced publisher more than `r`, wherever in the list it stands. -/
theorem sources_with (ha : p.announced = true) (hremote : r'.remote = r.remote)
    (hwithout : announcedOf r.publishers = announcedOf (ps ++ qs))
    (hwith : r'.publishers = ps ++ p :: qs) :
    r'.sources = Function.update r.sources p.ns (r.sources p.ns + 1) := by
  have hr : ∀ a, r.sources a =
      (announcedOf ps).count a + (announcedOf qs).count a + (r.relays a).length := by
    intro a
    rw [sources, hwithout, announcedOf_append, count_append]
  have hr' : ∀ a, r'.sources a =
      (announcedOf ps).count a + (p.ns :: announcedOf qs).count a + (r.relays a).length := by
    intro a
    rw [sources, hwith, announcedOf_append, announcedOf_cons_of_announced ha, count_append,
      relays, hremote, relays]
  funext a
  rw [hr']
  rcases eq_or_ne a p.ns with rfl | hne
  · rw [update_self, count_cons_self, hr]
    omega
  · rw [update_of_ne hne, count_cons_of_ne hne.symm, hr]

theorem Sound.announcePublisher (h : r.Sound)
    (he : ∀ p ∈ r.publishers, p.ref = e → p.announced = false) (clock : Clock) :
    (r.announcePublisher clock e).Sound := by
  unfold NamespaceRegistry.announcePublisher
  split
  · exact h
  · next p hf =>
    obtain ⟨hpe, ps, qs, hsplit, hps, hqs⟩ := h.split hf
    have hnew : p.announced = false := he p (mem_of_find?_eq_some hf) hpe
    have hsame : ∀ l : List PublisherEntry, (∀ q ∈ l, q.ref ≠ e) →
        (l.map fun q => if q.ref = e then { q with announced := true } else q) = l := by
      intro l hl
      rw [map_congr_left fun q hq => if_neg (hl q hq), map_id']
    have hmap : (r.publishers.map fun q => if q.ref = e then { q with announced := true } else q)
        = ps ++ { p with announced := true } :: qs := by
      rw [hsplit, map_append, map_cons, if_pos hpe, hsame ps hps, hsame qs hqs]
    have hwithout : announcedOf r.publishers = announcedOf (ps ++ qs) := by
      rw [hsplit, announcedOf_mid_of_not hnew]
    rw [hmap]
    refine ⟨?_, h.relaysOk, ?_⟩
    · have hrefs := h.refs
      rw [hsplit] at hrefs
      simpa [NamespaceRegistry.addSourceLocked, NamespaceRegistry.eachSubscriber] using hrefs
    · have hm : Mirrors { r with publishers := ps ++ { p with announced := true } :: qs }
          r.sources := h.mirrors.of_subs (fun _ hs => hs) rfl
      have hsrc : sources { r with publishers := ps ++ { p with announced := true } :: qs } =
          update r.sources p.ns (r.sources p.ns + 1) :=
        sources_with (p := { p with announced := true }) rfl rfl hwithout rfl
      have hadd := hm.addSourceLocked clock p.ns
      rwa [← hsrc] at hadd

section

variable (r : NamespaceRegistry) (clock : Clock) (p : PublisherEntry)

@[simp] theorem releasePublisher_publishers :
    (r.releasePublisher clock p).1.publishers = r.publishers := by
  unfold NamespaceRegistry.releasePublisher
  split <;> rfl

@[simp] theorem releasePublisher_remote : (r.releasePublisher clock p).1.remote = r.remote := by
  unfold NamespaceRegistry.releasePublisher
  split <;> rfl

@[simp] theorem releasePublisher_subscribers :
    (r.releasePublisher clock p).1.subscribers = r.subscribers := by
  unfold NamespaceRegistry.releasePublisher
  split <;> rfl

end

theorem Mirrors.releasePublisher (h : r.Mirrors src) (hp : p.announced = true → 0 < src p.ns)
    (clock : Clock) : (r.releasePublisher clock p).1.Mirrors
      (if p.announced then Function.update src p.ns (src p.ns - 1) else src) := by
  unfold NamespaceRegistry.releasePublisher
  split
  · next ha => exact (h.removeSourceLocked clock (hp ha)).of_subs (fun _ hs => hs) rfl
  · exact h.of_subs (fun _ hs => hs) rfl

theorem sources_without (hremote : r'.remote = r.remote) (hwith : r.publishers = ps ++ p :: qs)
    (hwithout : r'.publishers = ps ++ qs) : (p.announced = true → 0 < r.sources p.ns) ∧
      r'.sources =
        if p.announced then Function.update r.sources p.ns (r.sources p.ns - 1)
        else r.sources := by
  cases ha : p.announced with
  | true =>
    have h := sources_with ha hremote.symm (by rw [hwithout]) hwith
    constructor
    · intro _
      rw [h, update_self]
      exact Nat.succ_pos _
    · rw [if_pos rfl, h]
      simp
  | false =>
    refine ⟨nofun, ?_⟩
    rw [if_neg Bool.false_ne_true]
    funext a
    rw [sources, sources, hwith, hwithout, announcedOf_mid_of_not ha, relays, relays, hremote]

theorem Sound.unregisterPublisher (h : r.Sound) (clock : Clock) (e : PubID) :
    (r.unregisterPublisher clock e).Sound := by
  unfold NamespaceRegistry.unregisterPublisher
  split
  · exact h
  · next p hf =>
    obtain ⟨hpe, ps, qs, hsplit, hps, hqs⟩ := h.split hf
    have hfilter : r.publishers.filter (·.ref != e) = ps ++ qs := by
      rw [hsplit, filter_append, filter_cons_of_neg (by simp [hpe]),
        filter_eq_self.mpr fun q hq => by simpa using hps q hq,
        filter_eq_self.mpr fun q hq => by simpa using hqs q hq]
    let r₀ : NamespaceRegistry := { r with publishers := r.publishers.filter (·.ref != e) }
    obtain ⟨hpos, hsrc⟩ := @sources_without p r r₀ ps qs rfl hsplit hfilter
    have hm : (r₀.releasePublisher clock p).1.Mirrors r₀.sources := by
      have hm₀ : r₀.Mirrors r.sources := h.mirrors.of_subs (fun _ hs => hs) rfl
      rw [hsrc]
      exact hm₀.releasePublisher hpos clock
    have hsound : (r₀.releasePublisher clock p).1.Sound := by
      refine ⟨?_, ?_, ?_⟩
      · rw [releasePublisher_publishers]
        exact h.refs.sublist ((filter_sublist).map _)
      · intro ns rs hl
        rw [releasePublisher_remote] at hl
        exact h.relaysOk ns rs hl
      · rwa [sources_congr (releasePublisher_publishers r₀ clock p)
          (releasePublisher_remote r₀ clock p)]
    show Sound (if (r₀.releasePublisher clock p).2 then
      (r₀.releasePublisher clock p).1.unpublishNamespaceFromDiscovery p.ns
      else (r₀.releasePublisher clock p).1)
    split
    · exact hsound.congr rfl rfl rfl rfl
    · exact hsound

/-! ## Sessions -/

theorem releaseAll_frame (clock : Clock) (ps : List PublisherEntry) :
    ∀ (r : NamespaceRegistry) (out : List TrackNamespace),
      (releaseAll clock ps r out).1.publishers = r.publishers ∧
      (releaseAll clock ps r out).1.remote = r.remote ∧
      (releaseAll clock ps r out).1.subscribers = r.subscribers := by
  induction ps with
  | nil => exact fun r out => ⟨rfl, rfl, rfl⟩
  | cons p ps ih =>
    intro r out
    obtain ⟨h1, h2, h3⟩ := ih (r.releasePublisher clock p).1
      (if (r.releasePublisher clock p).2 then out ++ [p.ns] else out)
    exact ⟨h1.trans (releasePublisher_publishers r clock p),
      h2.trans (releasePublisher_remote r clock p),
      h3.trans (releasePublisher_subscribers r clock p)⟩

/-- By induction on the publishers yet to be released, each of which `src` still counts. -/
theorem Mirrors.releaseAll :
    ∀ {r : NamespaceRegistry} {src : TrackNamespace → Nat} {out : List TrackNamespace},
      r.Mirrors src → (∀ ns, (announcedOf ps).count ns ≤ src ns) →
      (releaseAll clock ps r out).1.Mirrors fun ns => src ns - (announcedOf ps).count ns := by
  induction ps with
  | nil =>
    intro r src out h _
    exact h
  | cons p ps ih =>
    intro r src out h hle
    cases ha : p.announced with
    | true =>
      rw [announcedOf_cons_of_announced ha] at hle ⊢
      have hpos : 0 < src p.ns := by
        have := hle p.ns
        rw [count_cons_self] at this
        omega
      have hm := h.releasePublisher (fun _ => hpos) clock
      rw [if_pos ha] at hm
      have hfun : (fun ns => src ns - (p.ns :: announcedOf ps).count ns) =
          fun ns => Function.update src p.ns (src p.ns - 1) ns - (announcedOf ps).count ns := by
        funext ns
        rcases eq_or_ne ns p.ns with rfl | hne
        · rw [count_cons_self, update_self]
          omega
        · rw [count_cons_of_ne hne.symm, update_of_ne hne]
      rw [hfun]
      refine ih hm fun ns => ?_
      have hns := hle ns
      rcases eq_or_ne ns p.ns with rfl | hne
      · rw [count_cons_self] at hns
        rw [update_self]
        omega
      · rw [count_cons_of_ne hne.symm] at hns
        rwa [update_of_ne hne]
    | false =>
      rw [announcedOf_cons_of_not ha] at hle ⊢
      have hm := h.releasePublisher (p := p) (by simp [ha]) clock
      rw [if_neg (by simp [ha])] at hm
      exact ih hm hle

theorem count_announcedOf_filter (ps : List PublisherEntry) (f : PublisherEntry → Bool)
    (ns : TrackNamespace) :
    (announcedOf ps).count ns =
      (announcedOf (ps.filter f)).count ns + (announcedOf (ps.filter (!f ·))).count ns := by
  have hperm : (announcedOf (ps.filter f ++ ps.filter (!f ·))).Perm (announcedOf ps) :=
    ((filter_append_perm f ps).filter _).map _
  rw [← hperm.count_eq, announcedOf_append, count_append]

theorem Sound.removeSession (h : r.Sound) (clock : Clock) (session : SessionID) :
    (r.removeSession clock session).Sound := by
  obtain ⟨-, hremote, hsubs⟩ :=
    releaseAll_frame clock (r.publishers.filter (·.session == session)) r []
  have hcount : ∀ ns, (announcedOf r.publishers).count ns =
      (announcedOf (r.publishers.filter (·.session == session))).count ns +
        (announcedOf (r.publishers.filter (·.session != session))).count ns :=
    count_announcedOf_filter r.publishers (·.session == session)
  have hrem : (r.removeSession clock session).remote = r.remote := hremote
  have hsrc : (r.removeSession clock session).sources = fun ns => r.sources ns -
      (announcedOf (r.publishers.filter (·.session == session))).count ns := by
    funext ns
    have hpub : (r.removeSession clock session).publishers =
        r.publishers.filter (·.session != session) := rfl
    rw [sources, sources, relays, hpub, hrem, hcount ns, relays]
    omega
  refine ⟨h.refs.sublist ((filter_sublist).map _), ?_, ?_⟩
  · intro ns rs hl
    rw [hrem] at hl
    exact h.relaysOk ns rs hl
  · rw [hsrc]
    refine (h.mirrors.releaseAll fun ns => ?_).of_subs (fun s hs => ?_) rfl
    · rw [sources, hcount ns]
      omega
    · rw [hsubs]
      exact (mem_filter.mp hs).1

/-! ## Other relays -/

theorem RelaysOk.nodup (h : r.RelaysOk) (ns : TrackNamespace) : (r.relays ns).Nodup := by
  unfold relays
  cases hl : r.remote.lookup ns with
  | none => exact nodup_nil
  | some rs => exact (h ns rs hl).2

section

variable (r : NamespaceRegistry) (clock : Clock)

theorem relays_addRelay (ns a : TrackNamespace) (addr : Addr) :
    (r.addRelay clock ns addr).relays a =
      if a = ns then r.relays ns ++ [addr] else r.relays a := by
  show ((r.remote.insert ns (r.relays ns ++ [addr])).lookup a).getD [] = _
  split
  · next h => rw [h, lookup_insert, Option.getD_some]
  · next h => rw [lookup_insert_ne h, relays]

theorem remote_dropRelay (ns : TrackNamespace) (addr : Addr) :
    (r.dropRelay clock ns addr).remote =
      if (r.relays ns).erase addr = [] then r.remote.erase ns
      else r.remote.insert ns ((r.relays ns).erase addr) := rfl

theorem relays_dropRelay (ns a : TrackNamespace) (addr : Addr) :
    (r.dropRelay clock ns addr).relays a =
      if a = ns then (r.relays ns).erase addr else r.relays a := by
  rw [relays, remote_dropRelay]
  by_cases h : a = ns
  · rw [if_pos h, h]
    split
    · next he => rw [lookup_erase, Option.getD_none, he]
    · rw [lookup_insert, Option.getD_some]
  · split
    · rw [lookup_erase_ne h, relays]
    · rw [lookup_insert_ne h, relays]

end

theorem RelaysOk.addRelay (h : r.RelaysOk) (hn : addr ∉ r.relays ns) (clock : Clock) :
    (r.addRelay clock ns addr).RelaysOk := by
  intro a rs hl
  have hl : (r.remote.insert ns (r.relays ns ++ [addr])).lookup a = some rs := hl
  rcases eq_or_ne a ns with rfl | hne
  · rw [lookup_insert] at hl
    cases hl
    refine ⟨by simp, ?_⟩
    rw [nodup_append]
    refine ⟨h.nodup a, nodup_singleton addr, ?_⟩
    intro x hx y hy hxy
    rw [mem_singleton] at hy
    exact hn (hy ▸ hxy ▸ hx)
  · rw [lookup_insert_ne hne] at hl
    exact h a rs hl

theorem RelaysOk.dropRelay (h : r.RelaysOk) (clock : Clock) (ns : TrackNamespace) (addr : Addr) :
    (r.dropRelay clock ns addr).RelaysOk := by
  intro a rs hl
  rw [remote_dropRelay] at hl
  rcases eq_or_ne a ns with rfl | hne
  · split at hl
    · rw [lookup_erase] at hl
      cases hl
    · next hleft =>
      rw [lookup_insert] at hl
      cases hl
      exact ⟨hleft, (h.nodup a).erase addr⟩
  · have hl : r.remote.lookup a = some rs := by
      split at hl
      · rwa [lookup_erase_ne hne] at hl
      · rwa [lookup_insert_ne hne] at hl
    exact h a rs hl

theorem Sound.addRelay (h : r.Sound) (hn : addr ∉ r.relays ns) (clock : Clock) :
    (r.addRelay clock ns addr).Sound := by
  have hsrc : (r.addRelay clock ns addr).sources =
      update r.sources ns (r.sources ns + 1) := by
    funext a
    show (announcedOf r.publishers).count a + ((r.addRelay clock ns addr).relays a).length = _
    rw [relays_addRelay]
    rcases eq_or_ne a ns with rfl | hne
    · rw [if_pos rfl, update_self, sources, length_append, length_singleton,
        Nat.add_assoc]
    · rw [if_neg hne, update_of_ne hne, sources]
  refine ⟨h.refs, h.relaysOk.addRelay hn clock, ?_⟩
  rw [hsrc]
  apply Mirrors.addSourceLocked
  exact h.mirrors.of_subs (fun _ hs => hs) rfl

theorem Sound.dropRelay (h : r.Sound) (hm : addr ∈ r.relays ns) (clock : Clock) :
    (r.dropRelay clock ns addr).Sound := by
  have hpos : 0 < (r.relays ns).length := length_pos_of_mem hm
  have hsrc : (r.dropRelay clock ns addr).sources =
      update r.sources ns (r.sources ns - 1) := by
    funext a
    show (announcedOf r.publishers).count a + ((r.dropRelay clock ns addr).relays a).length = _
    rw [relays_dropRelay]
    rcases eq_or_ne a ns with rfl | hne
    · rw [if_pos rfl, update_self, sources, length_erase_of_mem hm]
      omega
    · rw [if_neg hne, update_of_ne hne, sources]
  refine ⟨h.refs, h.relaysOk.dropRelay clock ns addr, ?_⟩
  rw [hsrc]
  refine Mirrors.removeSourceLocked ?_ clock (Nat.lt_of_lt_of_le hpos (Nat.le_add_left _ _))
  exact h.mirrors.of_subs (fun _ hs => hs) rfl

theorem Sound.remoteNamespace (h : r.Sound) (clock : Clock) (ns : TrackNamespace) (addr : Addr)
    (published : Bool) : (r.remoteNamespace clock ns addr published).Sound := by
  unfold NamespaceRegistry.remoteNamespace
  split
  · split
    · exact h
    · next hn => exact h.addRelay hn clock
  · split
    · next hm => exact h.dropRelay hm clock
    · exact h

theorem mem_remotePairs : ad ∈ r.remotePairs ↔ ad.2 ∈ r.relays ad.1 := by
  unfold remotePairs relays
  rw [mem_flatMap]
  constructor
  · intro h
    obtain ⟨rn, hrn, hin⟩ := h
    obtain ⟨addr, haddr, rfl⟩ := mem_map.mp hin
    have hl : r.remote.lookup rn.1 = some rn.2 := mem_dlookup r.remote.nodupKeys hrn
    rwa [hl, Option.getD_some]
  · intro h
    cases hl : r.remote.lookup ad.1 with
    | none =>
      rw [hl, Option.getD_none] at h
      cases h
    | some rs =>
      rw [hl, Option.getD_some] at h
      exact ⟨⟨ad.1, rs⟩, of_mem_dlookup hl, mem_map.mpr ⟨ad.2, h, rfl⟩⟩

theorem RelaysOk.nodup_remotePairs (h : r.RelaysOk) : r.remotePairs.Nodup := by
  unfold remotePairs
  rw [nodup_flatMap]
  constructor
  · intro rn hrn
    have hnd := (h rn.1 rn.2 (mem_dlookup r.remote.nodupKeys hrn)).2
    exact hnd.map fun x y hxy => (Prod.mk.inj hxy).2
  · refine r.remote.nodupKeys.pairwise_ne.imp fun {x y} hxy => ?_
    intro ad hx hy
    obtain ⟨_, _, rfl⟩ := mem_map.mp hx
    obtain ⟨_, _, heq⟩ := mem_map.mp hy
    exact hxy (Prod.mk.inj heq).1.symm

theorem Sound.addRemote {ads : List (TrackNamespace × Addr)} :
    ∀ {r : NamespaceRegistry}, r.Sound → (r.addRemote clock ads).Sound := by
  induction ads with
  | nil => exact fun h => h
  | cons ad ads ih =>
    intro r h
    show (NamespaceRegistry.addRemote
      (if ad.2 ∈ r.relays ad.1 then r else r.addRelay clock ad.1 ad.2) clock ads).Sound
    apply ih
    split
    · exact h
    · next hn => exact h.addRelay hn clock

theorem mem_relays_dropRelay (h : r.RelaysOk) {x : TrackNamespace × Addr} :
    x.2 ∈ (r.dropRelay clock ad.1 ad.2).relays x.1 ↔ x.2 ∈ r.relays x.1 ∧ x ≠ ad := by
  rw [relays_dropRelay]
  by_cases hns : x.1 = ad.1
  · rw [if_pos hns, (h.nodup ad.1).mem_erase_iff, hns, and_comm, Ne, Ne, Prod.ext_iff]
    simp [hns]
  · rw [if_neg hns, Ne, Prod.ext_iff]
    simp [hns]

/-- Each drop takes a source away, so it must be there: no pair is dropped twice. -/
theorem Sound.dropRemote : ∀ {r : NamespaceRegistry}, r.Sound → drops.Nodup →
      (∀ ad ∈ drops, ad.2 ∈ r.relays ad.1) → (r.dropRemote clock drops).Sound := by
  induction drops with
  | nil => exact fun h _ _ => h
  | cons ad drops ih =>
    intro r h hn hm
    obtain ⟨hnew, hn⟩ := nodup_cons.mp hn
    refine ih (h.dropRelay (hm ad mem_cons_self) clock) hn fun x hx => ?_
    refine (mem_relays_dropRelay h.relaysOk).mpr ⟨hm x (mem_cons_of_mem ad hx), ?_⟩
    intro hxad
    exact hnew (hxad ▸ hx)

theorem Sound.replaceRemote (h : r.Sound) {adds : List (TrackNamespace × Addr)}
    (hd : drops.Perm ((r.addRemote clock adds).remotePairs.filter (· ∉ adds))) :
    (r.replaceRemote clock adds drops).Sound := by
  have hadd : (r.addRemote clock adds).Sound := h.addRemote
  refine hadd.dropRemote ?_ fun ad had => ?_
  · exact hd.nodup_iff.mpr (hadd.relaysOk.nodup_remotePairs.filter _)
  · exact mem_remotePairs.mp (mem_filter.mp (hd.mem_iff.mp had)).1

/-! ## Subscribers, and the runs -/

/-- The seed names local namespaces first; with the rest, in any order, it names each one once. -/
theorem seedLocals_perm (ps : List PublisherEntry) (names : List TrackNamespace) :
    ((seedLocals ps names).1 ++ (seedLocals ps names).2).Perm names := by
  induction ps generalizing names with
  | nil => exact List.Perm.refl names
  | cons p ps ih =>
    unfold seedLocals
    split
    · next hc =>
      have hmem : p.ns ∈ names := by
        rw [Bool.and_eq_true, decide_eq_true_iff] at hc
        exact hc.1
      exact ((ih (names.erase p.ns)).cons p.ns).trans (perm_cons_erase hmem).symm
    · exact ih names

theorem Sound.registerSubscriber (h : r.Sound) {pfx : TrackNamespace} {rest : List TrackNamespace}
    (hrest : rest.Perm (seedLocals r.publishers (r.namespaceSources pfx).keys).2) (clock : Clock)
    (session : SessionID) (wantsTracks : Bool) :
    (r.registerSubscriber clock s pfx session wantsTracks rest).Sound := by
  refine ⟨h.refs, h.relaysOk, ?_⟩
  intro t ht hw
  rcases eq_or_ne t s with rfl | hne
  · simp only [NamespaceRegistry.registerSubscriber, update_self] at hw ⊢
    cases wantsTracks with
    | true => simp at hw
    | false =>
      have hperm : ((seedLocals r.publishers (r.namespaceSources pfx).keys).1 ++ rest).Perm
          (r.namespaceSources pfx).keys :=
        (hrest.append_left _).trans (seedLocals_perm _ _)
      refine Exact.registered (counts_namespaceSources h.relaysOk pfx) ?_ ?_ session (clock t)
      · exact hperm.nodup_iff.mpr (r.namespaceSources pfx).nodupKeys
      · exact fun ns => hperm.mem_iff
  · have hsub : (r.registerSubscriber clock s pfx session wantsTracks rest).subs t = r.subs t :=
      update_of_ne hne _ _
    rw [hsub] at hw ⊢
    have hold : t ∈ r.subscribers := by
      rcases mem_append.mp ht with hin | hin
      · exact hin
      · exact absurd (mem_singleton.mp hin) hne
    exact h.mirrors t hold hw

theorem Sound.updatePrefix (h : r.Sound) {pfx : TrackNamespace} {dones news : List TrackNamespace}
    (hdones : dones.Perm
      ((r.subs s).announced.keys.filter (· ∉ (r.namespaceSources pfx).keys))) (hnews : news.Perm
      ((r.namespaceSources pfx).keys.filter (· ∉ (r.subs s).announced.keys))) (clock : Clock) :
    (r.updatePrefix clock s pfx dones news).Sound := by
  refine ⟨h.refs, h.relaysOk, ?_⟩
  apply h.mirrors.update
  · apply updatePrefix_wantsTracks
  · intro hw he
    refine he.updatePrefix hw (counts_namespaceSources h.relaysOk pfx) ?_ hdones hnews (clock s)
    intro ns hns
    exact (counts_namespaceSources h.relaysOk _).mem_keys_iff.mpr hns

theorem Sound.queue (h : r.Sound) {m : SubMessage} (hm : ∀ v : View, v.receive m = some v)
    (clock : Clock) (s : EntryID) (last : Bool) : (r.queue clock s m last).Sound := by
  refine ⟨h.refs, h.relaysOk, ?_⟩
  apply h.mirrors.update
  · rfl
  · exact fun _ he => ⟨he.counts, he.replays.push (hm _) _ last⟩

theorem Sound.writer (h : r.Sound) {move : Outbox → Option Outbox}
    (hmove : ∀ q q', move q = some q' →
      q'.pushed = q.pushed ∧ (q'.stopped = false → q.stopped = false))
    (hr : r.writer s move = some r') : r'.Sound := by
  obtain ⟨q, hq, rfl⟩ := Option.map_eq_some_iff.mp hr
  obtain ⟨hp, hs⟩ := hmove _ _ hq
  refine ⟨h.refs, h.relaysOk, ?_⟩
  apply h.mirrors.update
  · rfl
  · exact fun _ he => ⟨he.counts, he.replays.of_pushed hp hs⟩

theorem Sound.step {a : Clock × Op} (h : r.Sound) (hs : r.step a = some r') : r'.Sound := by
  obtain ⟨clock, op⟩ := a
  cases op with
  | registerPublisher e ns session =>
    obtain ⟨he, rfl⟩ := guard_iff.mp hs
    exact h.registerPublisher he ns session
  | announcePublisher e =>
    obtain ⟨he, rfl⟩ := guard_iff.mp hs
    exact h.announcePublisher he clock
  | unregisterPublisher e =>
    simp only [NamespaceRegistry.step, Option.some.injEq] at hs
    exact hs ▸ h.unregisterPublisher clock e
  | remoteNamespace ns addr published =>
    simp only [NamespaceRegistry.step, Option.some.injEq] at hs
    exact hs ▸ h.remoteNamespace clock ns addr published
  | replaceRemote ads adds drops =>
    obtain ⟨⟨-, hd⟩, rfl⟩ := guard_iff.mp hs
    exact h.replaceRemote hd
  | registerSubscriber s pfx session wantsTracks rest =>
    obtain ⟨⟨-, hrest⟩, rfl⟩ := guard_iff.mp hs
    exact h.registerSubscriber hrest clock session wantsTracks
  | updatePrefix s pfx dones news =>
    obtain ⟨⟨hdones, hnews⟩, rfl⟩ := guard_iff.mp hs
    exact h.updatePrefix hdones hnews clock
  | enqueueOk s =>
    simp only [NamespaceRegistry.step, Option.some.injEq] at hs
    exact hs ▸ h.queue (fun _ => rfl) clock s false
  | finish s =>
    simp only [NamespaceRegistry.step, Option.some.injEq] at hs
    exact hs ▸ h.queue (fun _ => rfl) clock s true
  | publishSkipped s ns name =>
    cases hs
    unfold NamespaceRegistry.publishSkipped
    split
    · exact h.queue (fun _ => rfl) clock s false
    · exact h
  | unregisterSubscriber s =>
    cases hs
    refine ⟨h.refs, h.relaysOk, ?_⟩
    exact h.mirrors.of_subs (fun t ht => (mem_filter.mp ht).1) rfl
  | removeSession session =>
    simp only [NamespaceRegistry.step, Option.some.injEq] at hs
    exact hs ▸ h.removeSession clock session
  | take s => exact h.writer (fun _ _ => Outbox.take_pushed) hs
  | wrote s ok => exact h.writer (fun _ _ => Outbox.wrote_pushed) hs

/-- **A subscriber's view stays exact**: replaying what was queued for it gives the namespaces
    under its prefix that have a source, and it counts the sources of each. -/
theorem subscriber_view_exact {acts : List (Clock × Op)} {r : NamespaceRegistry}
    (hr : run step init acts = some r) {s : EntryID} (hs : s ∈ r.subscribers)
    (hw : (r.subs s).wantsTracks = false) (ho : (r.subs s).stopped = false) :
    (∃ named : Finset TrackNamespace,
      run View.receive (.start (r.subs s).first) (r.subs s).pushed =
        some ⟨(r.subs s).nsPrefix, named⟩ ∧
      ∀ ns, ns ∈ named ↔ (r.subs s).nsPrefix <+: ns ∧ 0 < r.sources ns) ∧
    ∀ ns, (r.subs s).announced.lookup ns =
      if (r.subs s).nsPrefix <+: ns ∧ 0 < r.sources ns then some (r.sources ns) else none := by
  have hsound : r.Sound := run_inv (fun _ _ _ h => h.step) sound_init hr
  have hexact := hsound.mirrors s hs hw
  refine ⟨⟨_, hexact.replays.replay ho, fun ns => ?_⟩, fun ns => ?_⟩
  · rw [mem_toFinset, hexact.counts.mem_keys_iff]
    unfold under
    split
    · next hp => exact ⟨fun h => ⟨hp, h⟩, And.right⟩
    · next hp => exact ⟨fun h => absurd h (Nat.lt_irrefl 0), fun h => absurd h.1 hp⟩
  · rw [hexact.counts ns]
    unfold under
    by_cases hp : (r.subs s).nsPrefix <+: ns
    · simp [hp]
    · simp [hp]

/-- A publisher announced, a relay that advertises the same namespace and another, a prefix
    moved, and the publisher gone: two namespaces announced, one of them done. -/
theorem subscriber_view_exact_moved :
    ∃ r : NamespaceRegistry,
      (r.subs 5).pushed =
        [.namespace_ [[2]], .namespace_ [[3]], .namespaceDone [[3]],
          .requestOk (some [[1], [2]])] ∧
      ∃ named : Finset TrackNamespace,
        run View.receive (.start (r.subs 5).first) (r.subs 5).pushed =
          some ⟨(r.subs 5).nsPrefix, named⟩ ∧
        ∀ ns, ns ∈ named ↔ (r.subs 5).nsPrefix <+: ns ∧ 0 < r.sources ns := by
  obtain ⟨r, hr, hp, hs, hw, ho⟩ := computes
    (o := run step init [(fun _ _ => 0, .registerPublisher 0 [[1], [2]] 7),
      (fun _ _ => 0, .announcePublisher 0),
      (fun _ _ => 0, .registerSubscriber 5 [[1]] 8 false []),
      (fun _ _ => 0, .remoteNamespace [[1], [3]] "b" true),
      (fun _ _ => 0, .remoteNamespace [[1], [2]] "b" true),
      (fun _ _ => 0, .updatePrefix 5 [[1], [2]] [[[1], [3]]] []),
      (fun _ _ => 0, .unregisterPublisher 0)])
    (P := fun r => (r.subs 5).pushed = [.namespace_ [[2]], .namespace_ [[3]],
      .namespaceDone [[3]], .requestOk (some [[1], [2]])] ∧ 5 ∈ r.subscribers ∧
      (r.subs 5).wantsTracks = false ∧ (r.subs 5).stopped = false) (by decide +kernel)
  exact ⟨r, hp, (subscriber_view_exact hr hs hw ho).1⟩

end NamespaceRegistry
end MoqGo.Relay
