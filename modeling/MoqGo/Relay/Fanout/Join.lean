import MoqGo.Relay.Fanout.Attach
import MoqGo.Relay.Fanout.Streams

/-!
# Joiners: live delivery and the fill

A subscriber that joins is told the Largest Object, and a fill brings it what came before: every
Object whose header had been read when it was registered. It should get none of those live. Two
mechanisms see to that: `headerRead` opens and numbers the writers of new subscribers, and
`forward` passes over a writer numbered after the Object's *note*, made when its header was
first read and kept while contributors read it.

**Neither is complete** (`live_in_fill`). The maker of a set opens its first writers without a
number, and may do so after another contributor has read a header and a subscriber has been
registered. And a note is forgotten with its last reader: if they all abandon the Object, the
next to read it makes a new note, and subscribers registered in between count as there before.

In every run in which no Object is forwarded at those two points (`FillExcluded`), no subscriber
is handed an Object whose header was read before it was registered (`live_not_in_fill`).
-/

namespace MoqGo.Relay

open Message List
open Function (forall_update_iff update update_apply update_idem update_of_ne update_self)

/-! ## A writer keeps its number -/

namespace Writer

section

variable (w : Writer)

theorem close_seq (reset : Bool) (code : StreamResetCode) : (w.close reset code).seq = w.seq := by
  unfold close
  split <;> rfl

theorem skip_seq (v : ForwardVerdict) (objectID : UInt64) : (w.skip v objectID).seq = w.seq := by
  cases v with
  | forward | skipObject | skipPaused => rfl
  | skipGroup | skipEnded => exact w.close_seq true .cancelled
  | skipBeforeStart =>
    simp only [skip]
    split <;> rfl

theorem publish_seq (fwd : FwdObject) : (w.publish fwd).seq = w.seq := by
  unfold publish
  split_ifs
  · rfl
  · rfl
  · simp only
    split_ifs
    · exact close_seq _ true .excessiveLoad
    · rfl

theorem forwardTo_seq (v : ForwardVerdict) (pos : InboundPos) (objectID : UInt64)
    (obj : SubgroupObject) (first : Bool) (heard : Nat) :
    (WriterSet.forwardTo w v pos objectID obj first heard).seq = w.seq := by
  unfold WriterSet.forwardTo
  split_ifs
  · rfl
  · by_cases hv : v = .forward
    · simp only [admitObject, hv, if_true]
      exact publish_seq _ _
    · simp only [admitObject, hv, if_false, Bool.false_eq_true]
      split_ifs <;> exact w.skip_seq v objectID

theorem reopen_seq (first opens : Bool) : (w.reopen first opens).1.seq = w.seq := by
  cases opens <;> rfl

theorem ready_seq (fwd : FwdObject) (fate : Fate) : (w.ready fwd fate).1.seq = w.seq := by
  obtain ⟨cause, hcause⟩ : ∃ cause, w.reopenCause fwd = (w.carryProps fwd, cause) := ⟨_, rfl⟩
  obtain ⟨w₁, ok, hfirst⟩ : ∃ w₁ ok, (if (w.carryProps fwd).out.isNone then
      (w.carryProps fwd).reopen fwd.first fate.opens else (w.carryProps fwd, true)) = (w₁, ok) :=
    ⟨_, _, rfl⟩
  have hseq : w₁.seq = w.seq := by
    have hfst := congrArg (fun p => p.1.seq) hfirst
    rw [← hfst]
    split_ifs
    · exact (w.carryProps fwd).reopen_seq fwd.first fate.opens
    · rfl
  simp only [ready, hcause, hfirst]
  split_ifs
  · exact hseq
  · exact (w₁.reopen_seq fwd.first fate.reopens).trans hseq
  · exact hseq

theorem handle_seq (fwd : FwdObject) (fate : Fate) : (w.handle fwd fate).seq = w.seq := by
  obtain ⟨w₁, ok, hready⟩ : ∃ w₁ ok, w.ready fwd fate = (w₁, ok) := ⟨_, _, rfl⟩
  have hseq : w₁.seq = w.seq := by simpa [hready] using w.ready_seq fwd fate
  unfold handle
  rw [hready]
  simp only
  split_ifs
  · rfl
  · rfl
  · exact hseq
  · refine Eq.trans ?_ hseq
    simp only [dropExpired]
    split_ifs <;> rfl
  · refine Eq.trans ?_ hseq
    cases fate.write <;> rfl

theorem finish_seq : w.finish.seq = w.seq := by
  show w.finishStream.seq = w.seq
  unfold finishStream
  split <;> split_ifs <;> rfl

end

end Writer

/-! ## The numbers of a set's writers -/

namespace WriterSet

/-- The number of a subscriber's writer; `some none` if the subscription was not established. -/
def seqs (s : WriterSet) (sub : SubID) : Option (Option Nat) :=
  (s.writers sub).map (Option.map Writer.seq)

/-- From `s` to `s'`, only writers of `subs` are opened, unnumbered or with numbers past `s`'s,
    and no Object is noted. -/
structure Opens (subs : List SubID) (s s' : WriterSet) : Prop where
  opened : s.opened ≤ s'.opened
  seqs : ∀ sub n, s'.seqs sub = some (some n) →
    s.seqs sub = some (some n) ∨ n = 0 ∨ s.opened < n
  known : ∀ sub, s'.seqs sub ≠ none → s.seqs sub ≠ none ∨ sub ∈ subs
  notes : ∀ r' ∈ s'.reading, ∃ r ∈ s.reading, r.id = r'.id ∧ r.heard = r'.heard

namespace Opens

variable {subs : List SubID}

theorem of_seqs {s s' : WriterSet} (hopened : s'.opened = s.opened) (hseqs : s'.seqs = s.seqs)
    (hnotes : ∀ r' ∈ s'.reading, ∃ r ∈ s.reading, r.id = r'.id ∧ r.heard = r'.heard) :
    Opens subs s s' := by
  refine ⟨hopened.ge, ?_, ?_, hnotes⟩
  · intro sub n h
    exact .inl (hseqs ▸ h)
  · intro sub h
    exact .inl (hseqs ▸ h)

theorem refl (subs : List SubID) (s : WriterSet) : Opens subs s s :=
  of_seqs rfl rfl fun r h => ⟨r, h, rfl, rfl⟩

theorem trans {s s' s'' : WriterSet} (h : Opens subs s s') (h' : Opens subs s' s'') :
    Opens subs s s'' := by
  refine ⟨h.opened.trans h'.opened, ?_, ?_, ?_⟩
  · intro sub n hn
    rcases h'.seqs sub n hn with hn | hn | hn
    · exact h.seqs sub n hn
    · exact .inr (.inl hn)
    · exact .inr (.inr (h.opened.trans_lt hn))
  · intro sub hk
    rcases h'.known sub hk with hk | hk
    · exact h.known sub hk
    · exact .inr hk
  · intro r'' hr''
    obtain ⟨r', hr', hid', hheard'⟩ := h'.notes r'' hr''
    obtain ⟨r, hr, hid, hheard⟩ := h.notes r' hr'
    exact ⟨r, hr, hid.trans hid', hheard.trans hheard'⟩

theorem foldl {f : WriterSet → SubID → WriterSet} (hf : ∀ s, ∀ sub ∈ subs, Opens subs s (f s sub)) :
    ∀ l : List SubID, (∀ sub ∈ l, sub ∈ subs) → ∀ s, Opens subs s (l.foldl f s) := by
  intro l
  induction l with
  | nil => exact fun _ s => refl subs s
  | cons sub l ih =>
    intro hl s
    have hfirst := hf s sub (hl sub (by simp))
    exact hfirst.trans (ih (fun sub' h => hl sub' (by simp [h])) (f s sub))

end Opens

/-- From `s` to `s'`, no writer is opened and no Object is noted. -/
structure Quiet (s s' : WriterSet) : Prop where
  opened : s'.opened = s.opened
  gen : s'.gen = s.gen
  seqs : s'.seqs = s.seqs
  notes : ∀ r' ∈ s'.reading, ∃ r ∈ s.reading, r.id = r'.id ∧ r.heard = r'.heard

namespace Quiet

theorem refl (s : WriterSet) : Quiet s s := ⟨rfl, rfl, rfl, fun r h => ⟨r, h, rfl, rfl⟩⟩

theorem trans {s s' s'' : WriterSet} (h : Quiet s s') (h' : Quiet s' s'') : Quiet s s'' := by
  refine ⟨h'.opened.trans h.opened, h'.gen.trans h.gen, h'.seqs.trans h.seqs, ?_⟩
  intro r'' hr''
  obtain ⟨r', hr', hid', hheard'⟩ := h'.notes r'' hr''
  obtain ⟨r, hr, hid, hheard⟩ := h.notes r' hr'
  exact ⟨r, hr, hid.trans hid', hheard.trans hheard'⟩

theorem opens {s s' : WriterSet} (h : Quiet s s') (subs : List SubID) : Opens subs s s' :=
  .of_seqs h.opened h.seqs h.notes

end Quiet

variable {s : WriterSet} {verdict : SubID → ForwardVerdict} {sub : SubID}

theorem quiet_mapWriters {f : SubID → Writer → Writer} (hf : ∀ sub w, (f sub w).seq = w.seq) :
    Quiet s (s.mapWriters f) := by
  refine ⟨rfl, rfl, ?_, fun r h => ⟨r, h, rfl, rfl⟩⟩
  funext sub
  rcases h : s.writers sub with _ | _ | w <;> simp [seqs, mapWriters, h, hf]

theorem seqs_of_hands {heard : Nat} (h : s.hands verdict heard sub = true) :
    ∃ n, s.seqs sub = some (some n) ∧ n ≤ heard := by
  unfold hands at h
  split at h
  · next w hw =>
    simp only [Bool.and_eq_true, decide_eq_true_eq] at h
    exact ⟨w.seq, by simp [seqs, hw], h.1⟩
  · cases h

section

variable (s : WriterSet) (cfg : Config) (established : SubID → Bool)

theorem opens_openWriterForSub {subs : List SubID} (hsub : sub ∈ subs) :
    Opens subs s (s.openWriterForSub cfg established sub) := by
  unfold openWriterForSub
  split_ifs with hsome hest
  · exact .refl subs s
  all_goals
    refine ⟨Nat.le_refl _, ?_, ?_, fun r h => ⟨r, h, rfl, rfl⟩⟩
    · intro sub' n h
      by_cases hs : sub' = sub
      · subst hs
        simp [seqs] at h
        try exact .inr (.inl h.symm)
      · exact .inl (by simpa [seqs, update_of_ne hs] using h)
    · intro sub' h
      by_cases hs : sub' = sub
      · exact .inr (hs ▸ hsub)
      · exact .inl (by simpa [seqs, update_of_ne hs] using h)

theorem opens_joinWriter
    {subs : List SubID} (hsub : sub ∈ subs) : Opens subs s (s.joinWriter cfg established sub) := by
  refine (s.opens_openWriterForSub cfg established hsub).trans ?_
  unfold joinWriter
  simp only
  split
  · next w hw =>
    refine ⟨Nat.le_succ _, ?_, ?_, fun r h => ⟨r, h, rfl, rfl⟩⟩
    · intro sub' n h
      by_cases hs : sub' = sub
      · subst hs
        simp [seqs] at h
        exact .inr (.inr (by omega))
      · exact .inl (by simpa [seqs, update_of_ne hs] using h)
    · intro sub' h
      by_cases hs : sub' = sub
      · exact .inr (hs ▸ hsub)
      · exact .inl (by simpa [seqs, update_of_ne hs] using h)
  · exact .refl subs _

theorem opens_joiners (subs : List SubID) (gen : Nat) :
    Opens subs s (subs.foldl (fun s sub => s.joinWriter cfg established sub)
      { s with gen := gen }) := by
  have hgen : Opens subs s { s with gen := gen } := .of_seqs rfl rfl fun r h => ⟨r, h, rfl, rfl⟩
  refine hgen.trans ?_
  exact Opens.foldl (fun s sub h => s.opens_joinWriter cfg established h) subs (fun _ h => h) _

theorem opens_openInitial (subs : List SubID) (gen : Nat) (lowest : Option UInt64) :
    Opens subs s (s.openInitial cfg established subs gen lowest) := by
  refine Opens.trans ?_ (Opens.foldl (fun s sub h => s.opens_openWriterForSub cfg established h)
    subs (fun _ h => h) _)
  cases lowest with
  | none => exact .of_seqs rfl rfl fun r h => ⟨r, h, rfl, rfl⟩
  | some lowest =>
    simp only [lower]
    split_ifs <;> exact .of_seqs rfl rfl fun r h => ⟨r, h, rfl, rfl⟩

end

theorem updateNote_heard {id : UInt64} {f : ObjHeard → Option ObjHeard} (l : List ObjHeard)
    (hf : ∀ r r', f r = some r' → r.id = r'.id ∧ r.heard = r'.heard) :
    ∀ r' ∈ updateNote id f l, ∃ r ∈ l, r.id = r'.id ∧ r.heard = r'.heard := by
  induction l with
  | nil => exact nofun
  | cons r rest ih =>
    intro r' hr'
    simp only [updateNote] at hr'
    split_ifs at hr' with hid
    · rcases mem_append.mp hr' with hr' | hr'
      · exact ⟨r, mem_cons_self, hf r r' (by simpa using hr')⟩
      · exact ⟨r', mem_cons_of_mem r hr', rfl, rfl⟩
    · rcases mem_cons.mp hr' with rfl | hr'
      · exact ⟨r', mem_cons_self, rfl, rfl⟩
      · obtain ⟨r₀, hr₀, h⟩ := ih r' hr'
        exact ⟨r₀, mem_cons_of_mem r hr₀, h⟩

theorem quiet_doneReading (s : WriterSet) (id : UInt64) : Quiet s (s.doneReading id) := by
  refine ⟨rfl, rfl, rfl, updateNote_heard s.reading ?_⟩
  intro r r' h
  split_ifs at h
  cases h
  exact ⟨rfl, rfl⟩

theorem noteHeader_cases (s : WriterSet) (id : UInt64) (heard : Nat) :
    (∃ r ∈ s.reading, r.id = id ∧ (s.noteHeader id heard).2 = r.heard ∧
        Quiet s (s.noteHeader id heard).1) ∨
      (∀ r ∈ s.reading, r.id ≠ id) ∧
        s.noteHeader id heard = ({ s with reading := s.reading ++ [⟨id, heard, 1⟩] }, heard) := by
  unfold noteHeader
  split
  · next r hfind =>
    refine .inl ⟨r, mem_of_find?_eq_some hfind, ?_, rfl, rfl, rfl, rfl, ?_⟩
    · simpa using List.find?_some hfind
    · exact updateNote_heard _ fun r r' h => by cases h; exact ⟨rfl, rfl⟩
  · next hfind => exact .inr ⟨by simpa using hfind, rfl⟩

theorem quiet_admitAgedOut {s' : WriterSet} {claim : Claim} {objectID : UInt64} {ok : Bool}
    (h : s.admitAgedOut claim verdict objectID = (s', ok)) : Quiet s s' := by
  unfold admitAgedOut at h
  split_ifs at h <;> cases h
  · exact .refl s
  · exact .refl s
  · apply quiet_mapWriters
    intro sub w
    split_ifs
    · rfl
    · exact w.skip_seq (verdict sub) objectID

theorem quiet_forward (s : WriterSet) (verdict : SubID → ForwardVerdict) (pos : InboundPos)
    (objectID : UInt64) (obj : SubgroupObject) (claimed : Bool) (heard : Nat) :
    Quiet s (s.forward verdict pos objectID obj claimed heard) := by
  have hrun : Quiet s ((s.lower objectID).extendRun objectID) := by
    unfold extendRun lower
    split_ifs <;> exact ⟨rfl, rfl, rfl, fun r h => ⟨r, h, rfl, rfl⟩⟩
  apply hrun.trans
  apply quiet_mapWriters
  intro sub w
  exact w.forwardTo_seq _ _ _ _ _ _

theorem quiet_leave (s : WriterSet) (reset : Bool) (code : StreamResetCode) (covers : Bool)
    (coverFrom : UInt64) : Quiet s (s.leave reset code covers coverFrom) := by
  unfold leave
  split_ifs <;> exact ⟨rfl, rfl, rfl, fun r h => ⟨r, h, rfl, rfl⟩⟩

theorem quiet_closeWriters (s : WriterSet) (groupOutOfRange : SubID → Bool) :
    Quiet s (s.closeWriters groupOutOfRange) := by
  obtain ⟨reset, code, hout⟩ : ∃ reset code, s.outcome = (reset, code) := ⟨_, _, rfl⟩
  unfold closeWriters
  rw [hout]
  apply quiet_mapWriters
  intro sub w
  split_ifs
  · exact w.close_seq true .cancelled
  · exact w.close_seq reset code

theorem quiet_putWriter {w w' : Writer} (hw : s.writers sub = some (some w))
    (hseq : w'.seq = w.seq) :
    Quiet s { s with writers := update s.writers sub (some (some w')) } := by
  refine ⟨rfl, rfl, ?_, fun r h => ⟨r, h, rfl, rfl⟩⟩
  funext sub'
  by_cases hs : sub' = sub
  · subst hs
    simp [seqs, hw, hseq]
  · simp [seqs, update_of_ne hs]

end WriterSet

/-- The note an Object that is being read or was claimed is limited by. -/
def Phase.heard : Phase → Option Heard
  | .reading _ heard | .claimed _ _ heard => some heard
  | _ => none

namespace World

/-- The note `h` of Object `id` of Subgroup `k`: set `i`, which the registry has for `k`, keeps it,
    or a contributor took it along. -/
def NoteFor (W : World) (k : SubgroupKey) (i : SetID) (id : UInt64) (h : Heard) : Prop :=
  (∃ refs r, W.entry.subgroups.lookup k = some ⟨i, refs⟩ ∧ r ∈ (W.sets i).reading ∧ r.id = id ∧
    h = ⟨r.heard, W.noted i id⟩) ∨
  ∃ c ct, W.contribs c = some ct ∧ ct.phase.heard = some h ∧ ct.key = k ∧ ct.set = i ∧
    ct.objectID = id

/-! ## The opening of a set's writers -/

theorem opens_putSet {W : World} {i : SetID} {s : WriterSet} {subs : List SubID}
    (hs : WriterSet.Opens subs (W.sets i) s) (j : SetID) :
    WriterSet.Opens subs (W.sets j) ((W.putSet i s).sets j) :=
  (forall_update_iff W.sets fun j s => WriterSet.Opens subs (W.sets j) s).mpr
    ⟨hs, fun j _ => .refl subs (W.sets j)⟩ j

theorem noteFor_putSet {W : World} {i j : SetID} {s : WriterSet} {subs : List SubID}
    {k : SubgroupKey} {id : UInt64} {h : Heard} (hs : WriterSet.Opens subs (W.sets i) s)
    (hn : (W.putSet i s).NoteFor k j id h) : W.NoteFor k j id h := by
  refine hn.imp_left ?_
  rintro ⟨refs, r', hk, hr', rfl, rfl⟩
  obtain ⟨r, hr, hid, hheard⟩ := (opens_putSet hs j).notes r' hr'
  exact ⟨refs, r, hk, hr, hid, by rw [hheard]; rfl⟩

/-! ## The steps that open no writer and note no Object -/

/-- Where contributor `c` stands after a step that opens no writer: its snapshot of the
    subscribers and its note are those it had, or the snapshot was taken just now. -/
structure Follows (W : World) (c : ContribID) (ct' : Contributor) : Prop where
  snapshot : ∀ s, ct'.phase.snapshot = some s → s = W.entry.copyDownstreamWithGen ∨
    ∃ ct, W.contribs c = some ct ∧ ct.phase.snapshot = some s
  heard : ∀ h, ct'.phase.heard = some h → ∃ ct, W.contribs c = some ct ∧
    ct.phase.heard = some h ∧ ct.set = ct'.set ∧ ct.key = ct'.key ∧ ct.objectID = ct'.objectID

/-- From `W` to `W'`, no writer is opened, no Object is noted and no subscriber is added. -/
structure Still (W W' : World) : Prop where
  sets : ∀ i, WriterSet.Quiet (W.sets i) (W'.sets i)
  contribs : ∀ c ct', W'.contribs c = some ct' → W.Follows c ct'
  lookup : ∀ k i refs, W'.entry.subgroups.lookup k = some ⟨i, refs⟩ →
    ∃ refs', W.entry.subgroups.lookup k = some ⟨i, refs'⟩
  downstream : W'.entry.downstream = W.entry.downstream
  downstreamGen : W'.entry.downstreamGen = W.entry.downstreamGen
  headers : W'.headers = W.headers
  noted : W'.noted = W.noted
  registered : W'.registered = W.registered

variable {W W' : World} {c : ContribID} {ct : Contributor} {k : SubgroupKey} {i : SetID}
  {id : UInt64} {hd : Heard}

theorem Still.noteFor (h : Still W W') (hn : W'.NoteFor k i id hd) : W.NoteFor k i id hd := by
  rcases hn with ⟨refs, r', hk, hr', rfl, rfl⟩ | ⟨c, ct', hc', hh, rfl, rfl, rfl⟩
  · obtain ⟨refs', hk⟩ := h.lookup k i refs hk
    obtain ⟨r, hr, hid, hheard⟩ := (h.sets i).notes r' hr'
    exact .inl ⟨refs', r, hk, hr, hid, by rw [h.noted, hheard]⟩
  · obtain ⟨ct, hc, hheard, hset, hkey, hid⟩ := (h.contribs c ct' hc').heard hd hh
    exact .inr ⟨c, ct, hc, hheard, hkey, hset, hid⟩

theorem Follows.same (hc : W.contribs c = some ct) : W.Follows c ct :=
  ⟨fun _ hs => .inr ⟨ct, hc, hs⟩, fun _ hh => ⟨ct, hc, hh, rfl, rfl, rfl⟩⟩

theorem Follows.idle (hs : ct.phase.snapshot = none) (hh : ct.phase.heard = none) :
    W.Follows c ct := by
  refine ⟨?_, ?_⟩
  · intro s h
    rw [hs] at h
    cases h
  · intro h hheard
    rw [hh] at hheard
    cases hheard

theorem Still.put {ct' : Contributor} {i : SetID}
    (hcontribs : W'.contribs = update W.contribs c (some ct')) (hf : W.Follows c ct')
    (hset : WriterSet.Quiet (W.sets i) (W'.sets i)) (hother : ∀ j, j ≠ i → W'.sets j = W.sets j)
    (hlookup : ∀ k i refs, W'.entry.subgroups.lookup k = some ⟨i, refs⟩ →
      ∃ refs', W.entry.subgroups.lookup k = some ⟨i, refs'⟩)
    (hdown : W'.entry.downstream = W.entry.downstream)
    (hgen : W'.entry.downstreamGen = W.entry.downstreamGen) (hheaders : W'.headers = W.headers)
    (hnoted : W'.noted = W.noted) (hreg : W'.registered = W.registered) : Still W W' := by
  refine ⟨?_, ?_, hlookup, hdown, hgen, hheaders, hnoted, hreg⟩
  · intro j
    by_cases hj : j = i
    · exact hj ▸ hset
    · rw [hother j hj]
      exact .refl _
  · intro c' ct₁ hc'
    rw [hcontribs] at hc'
    by_cases hcc : c' = c
    · subst hcc
      rw [update_self, Option.some.injEq] at hc'
      exact hc' ▸ hf
    · rw [update_of_ne hcc] at hc'
      exact .same hc'

theorem Still.putSet {i : SetID} {s : WriterSet} (hset : WriterSet.Quiet (W.sets i) s) :
    Still W (W.putSet i s) := by
  refine ⟨?_, fun _ _ hc => .same hc, fun _ _ refs h => ⟨refs, h⟩, rfl, rfl, rfl, rfl, rfl⟩
  intro j
  by_cases hj : j = i
  · subst hj
    simpa [World.putSet] using hset
  · simpa [World.putSet, update_of_ne hj] using WriterSet.Quiet.refl (W.sets j)

/-- The steps that do open a writer, note an Object or add a subscriber; and the making of a
    set. -/
inductive Opening (W : World) : Action → World → Prop
  | makes {c : ContribID} {hdr : SubgroupHeader} {dur : Option Nat} (hc : W.contribs c = none)
      (hl : W.entry.subgroups.lookup (headerKey hdr) = none) :
      Opening W (.acquire c hdr dur)
        ({ W with
            entry := { W.entry with
              subgroups := W.entry.subgroups.insert (headerKey hdr) ⟨W.nextSet, 1⟩ }
            sets := update W.sets W.nextSet { hdr := hdr }
            nextSet := W.nextSet + 1 }.putContrib c
          { hdr := hdr, set := W.nextSet, phase := .created, maxCacheDuration := dur })
  | openInitial {c : ContribID} {ct : Contributor} {established : SubID → Bool}
      {subs : List SubID} {gen : Nat} {lowest : Option UInt64} (hc : W.contribs c = some ct)
      (hp : ct.phase = .seeding subs gen lowest) :
      Opening W (.openInitial c established)
        ((W.putContrib c { ct with phase := .loop }).putSet ct.set
          ((W.sets ct.set).openInitial W.cfg established subs gen lowest))
  | header {c : ContribID} {ct : Contributor} {id : UInt64} {obj : SubgroupObject}
      {established : SubID → Bool} (hc : W.contribs c = some ct) (hp : ct.phase = .loop) :
      Opening W (.header c id obj established) (W.headerRead c ct id obj established)
  | register {sub : SubID} (hsub : sub ∉ W.entry.downstream) :
      Opening W (.register sub)
        { W with
          entry := W.entry.addDownstreamSnapshotLargest sub
          registered := update W.registered sub W.headers.length }

theorem Step.still_or_opening {a : Action} (h : Step W a W') : Still W W' ∨ Opening W a W' := by
  cases h with
  | makes hc hl => exact .inr (.makes hc hl)
  | openInitial hc hp => exact .inr (.openInitial hc hp)
  | header hc hp => exact .inr (.header hc hp)
  | register hsub => exact .inr (.register hsub)
  | joins hc hl =>
    exact .inl (.put rfl (.idle rfl rfl) (.refl (W.sets 0)) (fun j _ => rfl)
      (fun _ _ _ hk => TrackEntry.lookup_insert_refs hl hk) rfl rfl rfl rfl rfl)
  | @moves _ c ct ct' call cache hc hp hhdr hset hp' hsnap =>
    refine .inl (.put rfl ⟨?_, ?_⟩ (.refl (W.sets 0)) (fun j _ => rfl)
      (fun _ _ refs hk => ⟨refs, hk⟩) rfl rfl rfl rfl rfl)
    · intro s hs
      exact (hsnap s hs).symm.imp_right fun hs => ⟨ct, hc, hs⟩
    · intro h hh
      cases hq : ct'.phase <;> rw [hq] at hp' hh <;> cases hp' <;> cases hh
  | @claimAgedOut c ct now obj heard cache hc hp _ =>
    refine .inl (.put rfl ⟨nofun, ?_⟩ (.refl (W.sets 0)) (fun j _ => rfl)
      (fun _ _ refs hk => ⟨refs, hk⟩) rfl rfl rfl rfl rfl)
    intro h hh
    exact ⟨ct, hc, by rw [hp]; exact hh, rfl, rfl, rfl⟩
  | @claimFresh c ct now obj heard cache hc hp _ =>
    refine .inl (.put rfl ⟨nofun, ?_⟩ (.refl (W.sets 0)) (fun j _ => rfl)
      (fun _ _ refs hk => ⟨refs, hk⟩) rfl rfl rfl rfl rfl)
    intro h hh
    exact ⟨ct, hc, by rw [hp]; exact hh, rfl, rfl, rfl⟩
  | @done c ct leaves hc hp =>
    refine .inl (.put rfl (.idle ?_ ?_) ?_ (fun j hj => update_of_ne hj _ _)
      (fun _ _ refs hk => ⟨refs, hk⟩) rfl rfl rfl rfl rfl)
    · cases leaves <;> rfl
    · cases leaves <;> rfl
    · simpa [World.putSet] using (W.sets ct.set).quiet_doneReading ct.objectID
  | @drops c ct now verdict claim obj heard s hc hp hadm =>
    refine .inl (.put rfl (.idle rfl rfl) ?_ (fun j hj => update_of_ne hj _ _)
      (fun _ _ refs hk => ⟨refs, hk⟩) rfl rfl rfl rfl rfl)
    simpa [World.putSet] using ((W.sets ct.set).quiet_doneReading ct.objectID).trans
      (WriterSet.quiet_admitAgedOut hadm)
  | @forwards c ct now verdict claim obj heard s cache hc hp hs hadm =>
    refine .inl (.put rfl (.idle rfl rfl) ?_ (fun j hj => update_of_ne hj _ _)
      (fun _ _ refs hk => ⟨refs, hk⟩) rfl rfl rfl rfl rfl)
    have hquiet := ((W.sets ct.set).quiet_doneReading ct.objectID).trans
      (WriterSet.quiet_forward _ verdict ⟨c, ct.seq⟩ ct.objectID obj ct.isTrueFirst heard.count)
    simpa [World.putSet, hs] using hquiet
  | @leave c ct oor hc hp =>
    refine .inl (.put rfl (.idle rfl rfl) ?_ (fun j hj => update_of_ne hj _ _)
      (fun _ _ _ hk => TrackEntry.releaseSubgroup_lookup hk)
      (W.entry.releaseSubgroup_downstream ct.key).1
      (W.entry.releaseSubgroup_downstream ct.key).2 rfl rfl rfl)
    simp only [World.leave, World.putSet, update_self]
    have hleft := (W.sets ct.set).quiet_leave ct.inboundReset ct.inboundResetCode ct.covers
      ct.coverFrom
    split_ifs
    · exact hleft.trans (WriterSet.quiet_closeWriters _ oor)
    · exact hleft
  | others =>
    exact .inl ⟨fun _ => .refl _, fun _ _ hc => .same hc, fun _ _ refs hk => ⟨refs, hk⟩, rfl, rfl,
      rfl, rfl, rfl⟩
  | @dequeue i sub fate w fwd rest hw hfin hlag hin =>
    exact .inl (.putSet (WriterSet.quiet_putWriter hw
      (Writer.handle_seq { w with inbox := rest } fwd fate)))
  | @finish i sub w hw hfin hend =>
    exact .inl (.putSet (WriterSet.quiet_putWriter hw w.finish_seq))

/-! ## The making of a set -/

/-- From `W` to `W'`, a contributor makes a set: the next one, and blank. -/
structure Makes (W W' : World) : Prop where
  sets : ∃ hdr, ∀ i, W'.sets i = if i = W.nextSet then { hdr := hdr } else W.sets i
  contribs : ∀ c ct, W'.contribs c = some ct →
    W.contribs c = some ct ∨ ct.phase.snapshot = none ∧ ct.phase.heard = none
  lookup : ∀ k i refs, i ≠ W.nextSet → W'.entry.subgroups.lookup k = some ⟨i, refs⟩ →
    W.entry.subgroups.lookup k = some ⟨i, refs⟩
  downstream : W'.entry.downstream = W.entry.downstream
  downstreamGen : W'.entry.downstreamGen = W.entry.downstreamGen
  headers : W'.headers = W.headers
  noted : W'.noted = W.noted
  registered : W'.registered = W.registered

theorem makes_of {k₀ : SubgroupKey} {hdr : SubgroupHeader} (hp : ct.phase = .created)
    (hW' : W' = { W with
      entry := { W.entry with subgroups := W.entry.subgroups.insert k₀ ⟨W.nextSet, 1⟩ }
      sets := update W.sets W.nextSet { hdr := hdr }
      nextSet := W.nextSet + 1 }.putContrib c ct) : Makes W W' := by
  subst hW'
  refine ⟨⟨hdr, fun i => update_apply _ _ _ _⟩, ?_, ?_, rfl, rfl, rfl, rfl, rfl⟩
  · exact putContrib_cases ⟨by rw [hp]; rfl, by rw [hp]; rfl⟩
  · intro k i refs hne hk
    by_cases hkk : k = k₀
    · subst hkk
      rw [putContrib, AList.lookup_insert] at hk
      cases hk
      exact absurd rfl hne
    · rwa [putContrib, AList.lookup_insert_ne hkk] at hk

theorem Attached.set_ne (h : Attached W) (hc : W.contribs c = some ct)
    (hh : ct.phase.heard = some hd) : ct.set ≠ W.nextSet := by
  have hleft : ct.phase ≠ .left := by
    intro hp
    rw [hp] at hh
    cases hh
  exact fun heq => h.seat_ne (Nat.le_of_eq heq.symm) (seat_of hc hleft)

theorem Makes.noteFor (hatt : Attached W) (h : Makes W W') (hn : W'.NoteFor k i id hd) :
    i ≠ W.nextSet ∧ W.NoteFor k i id hd := by
  obtain ⟨hdr, hsets⟩ := h.sets
  rcases hn with ⟨refs, r, hk, hr, rfl, rfl⟩ | ⟨c, ct, hc, hh, rfl, rfl, rfl⟩
  · rw [hsets] at hr
    split_ifs at hr with hne
    · cases hr
    · exact ⟨hne, .inl ⟨refs, r, h.lookup k i refs hne hk, hr, rfl, by rw [h.noted]⟩⟩
  · rcases h.contribs c ct hc with hc | ⟨-, hnone⟩
    · exact ⟨hatt.set_ne hc hh, .inr ⟨c, ct, hc, hh, rfl, rfl, rfl⟩⟩
    · cases hnone.symm.trans hh

/-! ## The noting of a header -/

/-- A note of set `i` after the header of Object `id₀` was read in set `i₀`: one that was there,
    or the one made for it. -/
inductive NoteOf (W : World) (i₀ : SetID) (id₀ : UInt64) (i : SetID) (id : UInt64) (h : Heard) :
    Prop
  | old (r : ObjHeard) (hr : r ∈ (W.sets i).reading) (hid : r.id = id)
      (hheard : h = ⟨r.heard, W.noted i id⟩)
  | new (hi : i = i₀) (hid : id = id₀) (hheard : h = ⟨(W.sets i₀).opened, W.headers.length⟩)

/-- From `W` to `W'`, contributor `ct` notes the header of Object `id`. -/
structure Notes (W W' : World) (ct : Contributor) (id : UInt64) : Prop where
  sets : ∀ i, (W'.sets i).opened = (W.sets i).opened ∧ (W'.sets i).gen = (W.sets i).gen ∧
    (W'.sets i).seqs = (W.sets i).seqs
  notes : ∀ i, ∀ r ∈ (W'.sets i).reading, W.NoteOf ct.set id i r.id ⟨r.heard, W'.noted i r.id⟩
  contribs : ∀ c' ct', W'.contribs c' = some ct' → W.contribs c' = some ct' ∨
    ct'.set = ct.set ∧ ct'.key = ct.key ∧ ct'.objectID = id ∧ ct'.phase.snapshot = none ∧
      ∃ h, ct'.phase.heard = some h ∧ W.NoteOf ct.set id ct.set id h
  subgroups : W'.entry.subgroups = W.entry.subgroups
  downstream : W'.entry.downstream = W.entry.downstream
  downstreamGen : W'.entry.downstreamGen = W.entry.downstreamGen
  headers : W'.headers = W.headers ++ [(ct.key, id)]
  registered : W'.registered = W.registered

theorem notes_of {id : UInt64} {obj : SubgroupObject} {largest : Location} {known : Bool}
    {noted : SetID → UInt64 → Nat}
    (hnoted : noted = if (W.sets ct.set).reading.any fun r => r.id = id then W.noted
      else update W.noted ct.set (update (W.noted ct.set) id W.headers.length))
    (hW' : W' = { (W.putSet ct.set
          ((W.sets ct.set).noteHeader id (W.sets ct.set).opened).1).putContrib c
        { ct with
          objectID := id
          havePrev := true
          phase := .reading obj
            ⟨((W.sets ct.set).noteHeader id (W.sets ct.set).opened).2, noted ct.set id⟩ } with
      entry := { W.entry with largestObject := largest, hasLargestObject := known }
      headers := W.headers ++ [(ct.key, id)]
      noted := noted }) : Notes W W' ct id := by
  have hother : ∀ j, j ≠ ct.set → W'.sets j = W.sets j := by
    intro j hj
    rw [hW']
    exact update_of_ne hj _ _
  have hset : W'.sets ct.set = ((W.sets ct.set).noteHeader id (W.sets ct.set).opened).1 := by
    rw [hW']
    exact update_self _ _ _
  have hnew : W'.noted = noted := by rw [hW']
  rcases (W.sets ct.set).noteHeader_cases id (W.sets ct.set).opened with
    ⟨r, hr, hid, hheard, hquiet⟩ | ⟨hno, hnote⟩
  · have hany : (W.sets ct.set).reading.any (fun r => r.id = id) = true :=
      any_eq_true.mpr ⟨r, hr, by simpa using hid⟩
    rw [if_pos hany] at hnoted
    subst hnoted
    have hquiet : ∀ i, WriterSet.Quiet (W.sets i) (W'.sets i) := by
      intro i
      by_cases hi : i = ct.set
      · rw [hi, hset]
        exact hquiet
      · rw [hother i hi]
        exact .refl _
    refine ⟨fun i => ⟨(hquiet i).opened, (hquiet i).gen, (hquiet i).seqs⟩, ?_, ?_, ?_, ?_, ?_, ?_,
      ?_⟩
    · intro i r' hr'
      obtain ⟨r, hr, hid, hheard⟩ := (hquiet i).notes r' hr'
      exact .old r hr hid (by rw [hheard, hnew])
    · rw [hW']
      refine putContrib_cases ⟨rfl, rfl, rfl, rfl, _, rfl, ?_⟩
      exact .old r hr hid (by rw [hheard])
    all_goals simp only [hW', putContrib, putSet]
  · have hany : (W.sets ct.set).reading.any (fun r => r.id = id) = false := by simpa using hno
    rw [if_neg (by simp [hany])] at hnoted
    rw [hnote] at hset
    refine ⟨?_, ?_, ?_, ?_, ?_, ?_, ?_, ?_⟩
    · intro i
      by_cases hi : i = ct.set
      · rw [hi, hset]
        exact ⟨rfl, rfl, rfl⟩
      · rw [hother i hi]
        exact ⟨rfl, rfl, rfl⟩
    · intro i r' hr'
      rw [hnew]
      by_cases hi : i = ct.set
      · subst hi
        rw [hset] at hr'
        rcases mem_append.mp hr' with hr' | hr'
        · exact .old r' hr' rfl (by rw [hnoted, update_self, update_of_ne (hno r' hr')])
        · rw [mem_singleton.mp hr']
          exact .new rfl rfl (by rw [hnoted, update_self, update_self])
      · rw [hother i hi] at hr'
        exact .old r' hr' rfl (by rw [hnoted, update_of_ne hi])
    · rw [hW', hnote]
      refine putContrib_cases ⟨rfl, rfl, rfl, rfl, _, rfl, ?_⟩
      exact .new rfl rfl (by simp only [hnoted, update_self])
    all_goals simp only [hW', putContrib, putSet]

theorem putSet_putSet (W : World) (i : SetID) (s s' : WriterSet) :
    (W.putSet i s).putSet i s' = W.putSet i s' := by
  simp only [World.putSet, update_idem]

/-- **`headerRead`** opens the joiners' writers and then notes the header. -/
theorem headerRead_notes (W : World) (c : ContribID) (ct : Contributor) (id : UInt64)
    (obj : SubgroupObject) (established : SubID → Bool) :
    ∃ subs gen, W.Joiners (W.sets ct.set) subs gen ∧
      Notes
        (W.putSet ct.set (subs.foldl (fun s sub => s.joinWriter W.cfg established sub)
          { W.sets ct.set with gen := gen }))
        (W.headerRead c ct id obj established) ct id := by
  obtain ⟨largest, known, subs, gen, noted, s, hs, hjoin, hnoted, h⟩ :=
    W.headerRead_eq c ct id obj established
  have hset : (W.putSet ct.set s).sets ct.set = s := update_self _ _ _
  refine ⟨subs, gen, hjoin, ?_⟩
  rw [← hs]
  refine @notes_of (W.putSet ct.set s) _ c ct id obj largest known noted ?_ ?_
  · rw [hset]
    exact hnoted
  · rw [hset, putSet_putSet]
    exact h

/-- The notes after a header was noted: those there were, and at most one more. -/
theorem Notes.noteFor {id₀ : UInt64} (hatt : Attached W) (hc : W.contribs c = some ct)
    (hp : ct.phase ≠ .left) (h : Notes W W' ct id₀) (hn : W'.NoteFor k i id hd) :
    W.NoteFor k i id hd ∨ k = ct.key ∧ i = ct.set ∧ id = id₀ ∧
      hd = ⟨(W.sets ct.set).opened, W.headers.length⟩ := by
  obtain ⟨refs₀, hl₀⟩ := hatt.live c _ _ (seat_of hc hp)
  have hof : ∀ {k i refs id hd}, W.entry.subgroups.lookup k = some ⟨i, refs⟩ →
      W.NoteOf ct.set id₀ i id hd → W.NoteFor k i id hd ∨ k = ct.key ∧ i = ct.set ∧ id = id₀ ∧
        hd = ⟨(W.sets ct.set).opened, W.headers.length⟩ := by
    intro k i refs id hd hk hn
    cases hn with
    | old r hr hid hheard => exact .inl (.inl ⟨refs, r, hk, hr, hid, hheard⟩)
    | new hi hid hheard =>
      subst hi
      exact .inr ⟨hatt.inj k ct.key _ _ hk hl₀ rfl, rfl, hid, hheard⟩
  rcases hn with ⟨refs, r, hk, hr, rfl, rfl⟩ | ⟨c', ct', hc', hh, rfl, rfl, rfl⟩
  · rw [h.subgroups] at hk
    exact hof hk (h.notes i r hr)
  · rcases h.contribs c' ct' hc' with hc' | ⟨hset, hkey, hid, -, hd', hheard, hn⟩
    · exact .inl (.inr ⟨c', ct', hc', hh, rfl, rfl, rfl⟩)
    · cases hheard.symm.trans hh
      rw [hset, hkey, hid]
      exact hof hl₀ hn

/-! ## The invariant -/

/-- A note of set `i`, made after `noted` headers with `count` writers numbered, keeps out every
    numbered writer whose subscriber was registered later. -/
def Excludes (W : World) (i : SetID) (count noted : Nat) : Prop :=
  count ≤ (W.sets i).opened ∧
    ∀ sub n, (W.sets i).seqs sub = some (some n) → noted < W.registered sub → n = 0 ∨ count < n

/-- What keeps live delivery and the fill apart. -/
structure Joined (W : World) : Prop where
  attached : Attached W
  registered : ∀ sub, W.registered sub ≤ W.headers.length
  /-- Only registered subscribers have writers, or are about to. -/
  known : ∀ i sub, (W.sets i).seqs sub ≠ none → sub ∈ W.entry.downstream
  pending : ∀ c ct, W.contribs c = some ct → ∀ sub ∈ ct.phase.pendingSubs,
    sub ∈ W.entry.downstream
  notes : ∀ k i id h, W.NoteFor k i id h → W.Excludes i h.count h.noted
  handed : ∀ i sub, W.handed i sub ≠ [] → sub ∈ W.entry.downstream
  /-- Nothing of the fill was handed over live. -/
  clear : ∀ i sub, ∀ f ∈ W.handed i sub, f ∉ W.headers.take (W.registered sub)

theorem Excludes.opens {W W' : World} {i : SetID} {count noted : Nat} {subs : List SubID}
    (h : W.Excludes i count noted) (ho : WriterSet.Opens subs (W.sets i) (W'.sets i))
    (hreg : W'.registered = W.registered) : W'.Excludes i count noted := by
  refine ⟨h.1.trans ho.opened, ?_⟩
  intro sub n hn hlt
  rw [hreg] at hlt
  rcases ho.seqs sub n hn with hn | hn | hn
  · exact h.2 sub n hn hlt
  · exact .inl hn
  · exact .inr (h.1.trans_lt hn)

namespace Joined

theorem init (cfg : WriterSet.Config) (cache : ObjectCache) : Joined (init cfg cache) := by
  refine ⟨.init cfg cache, fun _ => Nat.le_refl _, ?_, ?_, ?_, ?_, ?_⟩
  all_goals simp [World.init, WriterSet.seqs, NoteFor]

variable {W W' : World}

theorem still (hi : Joined W) (hatt : Attached W') (h : Still W W')
    (hhanded : ∀ i sub, ∀ f ∈ W'.handed i sub, f ∈ W.handed i sub ∨
      sub ∈ W.entry.downstream ∧ f ∉ W.headers.take (W.registered sub)) : Joined W' := by
  have hexcl : ∀ i count noted, W.Excludes i count noted → W'.Excludes i count noted :=
    fun i _ _ hex => hex.opens ((h.sets i).opens []) h.registered
  refine ⟨hatt, ?_, ?_, ?_, fun k i id hd hn => hexcl _ _ _ (hi.notes k i id hd (h.noteFor hn)), ?_,
    ?_⟩
  · rw [h.registered, h.headers]
    exact hi.registered
  · intro i sub hk
    rw [(h.sets i).seqs] at hk
    rw [h.downstream]
    exact hi.known i sub hk
  · intro c ct hc sub hsub
    rw [h.downstream]
    obtain ⟨subs, gen, hs, hmem⟩ := Phase.snapshot_of_mem hsub
    rcases (h.contribs c ct hc).snapshot _ hs with hnow | ⟨ct₀, hc₀, hs₀⟩
    · cases hnow
      exact hmem
    · exact hi.pending c ct₀ hc₀ sub (Phase.mem_of_snapshot hs₀ hmem)
  · intro i sub hne
    obtain ⟨f, hf⟩ := exists_mem_of_ne_nil _ hne
    rw [h.downstream]
    exact (hhanded i sub f hf).elim (fun hf => hi.handed i sub (ne_nil_of_mem hf)) (·.1)
  · intro i sub f hf
    rw [h.headers, h.registered]
    exact (hhanded i sub f hf).elim (hi.clear i sub f) (·.2)

theorem putSet (hi : Joined W) {i : SetID} {s : WriterSet} {subs : List SubID}
    (hs : WriterSet.Opens subs (W.sets i) s) (hsubs : ∀ sub ∈ subs, sub ∈ W.entry.downstream) :
    Joined (W.putSet i s) := by
  refine ⟨hi.attached.frame (fun _ => rfl) rfl rfl, hi.registered, ?_, hi.pending, ?_, hi.handed,
    hi.clear⟩
  · intro j sub hk
    exact ((opens_putSet hs j).known sub hk).elim (hi.known j sub) (hsubs sub)
  · intro k j id h hn
    exact (hi.notes k j id h (noteFor_putSet hs hn)).opens (opens_putSet hs j) rfl

theorem makes (hi : Joined W) (hatt : Attached W') (h : Makes W W')
    (hhanded : W'.handed = W.handed) : Joined W' := by
  obtain ⟨hdr, hsets⟩ := h.sets
  have hexcl : ∀ i count noted, i ≠ W.nextSet → W.Excludes i count noted →
      W'.Excludes i count noted := by
    intro i count noted hne hex
    rw [Excludes, hsets, if_neg hne, h.registered]
    exact hex
  refine ⟨hatt, ?_, ?_, ?_, ?_, ?_, ?_⟩
  · rw [h.registered, h.headers]
    exact hi.registered
  · intro i sub hk
    rw [hsets] at hk
    rw [h.downstream]
    split_ifs at hk
    · exact absurd rfl hk
    · exact hi.known i sub hk
  · intro c ct hc sub hsub
    rw [h.downstream]
    rcases h.contribs c ct hc with hc | ⟨hnone, -⟩
    · exact hi.pending c ct hc sub hsub
    · obtain ⟨_, _, hs, -⟩ := Phase.snapshot_of_mem hsub
      cases hnone.symm.trans hs
  · intro k i id hd hn
    obtain ⟨hne, hn⟩ := h.noteFor hi.attached hn
    exact hexcl _ _ _ hne (hi.notes k i id hd hn)
  · rw [hhanded, h.downstream]
    exact hi.handed
  · rw [hhanded, h.headers, h.registered]
    exact hi.clear

/-- **A registration**: the subscriber has no writer yet, and everything noted is older. -/
theorem register (hi : Joined W) (hatt : Attached W') {sub : SubID}
    (hsub : sub ∉ W.entry.downstream) (hW' : W' = { W with
      entry := W.entry.addDownstreamSnapshotLargest sub
      registered := update W.registered sub W.headers.length }) : Joined W' := by
  subst hW'
  have hmem : ∀ sub' ∈ W.entry.downstream,
      sub' ∈ (W.entry.addDownstreamSnapshotLargest sub).downstream :=
    fun sub' h => mem_append.mpr (.inl h)
  have hexcl : ∀ j count noted, W.Excludes j count noted → Excludes
      { W with
        entry := W.entry.addDownstreamSnapshotLargest sub
        registered := update W.registered sub W.headers.length } j count noted := by
    intro j count noted h
    refine ⟨h.1, ?_⟩
    intro sub' n hn hlt
    by_cases hs : sub' = sub
    · subst hs
      exact absurd (hi.known j sub' (by rw [hn]; simp)) hsub
    · simp only [update_of_ne hs] at hlt
      exact h.2 sub' n hn hlt
  refine ⟨hatt, ?_, ?_, ?_, fun k j id h hn => hexcl j _ _ (hi.notes k j id h hn), ?_, ?_⟩
  · intro sub'
    simp only [update_apply]
    split_ifs
    · exact Nat.le_refl _
    · exact hi.registered sub'
  · intro j sub' hk
    exact hmem sub' (hi.known j sub' hk)
  · intro c ct hc sub' hs
    exact hmem sub' (hi.pending c ct hc sub' hs)
  · intro j sub' hne
    exact hmem sub' (hi.handed j sub' hne)
  · intro j sub' f hf
    have hs : sub' ≠ sub := by
      rintro rfl
      exact hsub (hi.handed j sub' (ne_nil_of_mem hf))
    simp only [update_of_ne hs]
    exact hi.clear j sub' f hf

/-- **A header is noted**: at its first note, no subscriber was registered later. -/
theorem note (hi : Joined W) (hatt : Attached W') {c : ContribID} {ct : Contributor} {id : UInt64}
    (hc : W.contribs c = some ct) (hp : ct.phase ≠ .left) (h : Notes W W' ct id)
    (hhanded : W'.handed = W.handed) : Joined W' := by
  have hexcl : ∀ i count noted, W.Excludes i count noted → W'.Excludes i count noted := by
    intro i count noted hex
    rw [Excludes, (h.sets i).1, (h.sets i).2.2, h.registered]
    exact hex
  refine ⟨hatt, ?_, ?_, ?_, ?_, ?_, ?_⟩
  · intro sub
    rw [h.registered, h.headers, length_append]
    exact (hi.registered sub).trans (Nat.le_add_right _ _)
  · intro i sub hk
    rw [(h.sets i).2.2] at hk
    rw [h.downstream]
    exact hi.known i sub hk
  · intro c ct' hc sub hsub
    rw [h.downstream]
    rcases h.contribs c ct' hc with hc | ⟨-, -, -, hnone, -⟩
    · exact hi.pending c ct' hc sub hsub
    · obtain ⟨_, _, hs, -⟩ := Phase.snapshot_of_mem hsub
      cases hnone.symm.trans hs
  · intro k i id' hd hn
    apply hexcl
    rcases h.noteFor hi.attached hc hp hn with hn | ⟨-, rfl, -, rfl⟩
    · exact hi.notes k i id' hd hn
    · exact ⟨Nat.le_refl _, fun sub n _ hlt => absurd hlt (Nat.not_lt.mpr (hi.registered sub))⟩
  · rw [hhanded, h.downstream]
    exact hi.handed
  · -- a header read later than every registration is in no fill
    intro i sub
    rw [hhanded, h.headers, h.registered, take_append_of_le_length (hi.registered sub)]
    exact hi.clear i sub

end Joined

/-! ## Whole runs -/

/-- The Object contributor `ct` is about to offer is let through to `forward`. -/
def admits (W : World) (ct : Contributor) : Bool :=
  !ct.phase.offersAgedOut ||
    (W.sets ct.set).hasRun && decide ((W.sets ct.set).runHi < ct.objectID)

/-- No Object is about to be handed to a subscriber

    * whose writer was opened with the set, though the subscriber was registered after the
      Object's note was made, or
    * that was registered after an earlier read of the Object's header, whose note was gone when
      the present one was made. -/
def FillExcluded (W : World) : Action → Prop
  | .forward c _ verdict => ∀ ct ∈ W.contribs c, W.admits ct = true → ∀ h ∈ ct.phase.heard,
    ∀ sub ∈ W.entry.downstream, (W.sets ct.set).hands verdict h.count sub = true →
      ¬ ((W.sets ct.set).seqs sub = some (some 0) ∧ h.noted < W.registered sub) ∧
      ¬ (W.registered sub ≤ h.noted ∧
        (ct.key, ct.objectID) ∈ W.headers.take (W.registered sub))
  | _ => True

instance (W : World) (a : Action) : Decidable (W.FillExcluded a) := by
  unfold FillExcluded
  split <;> infer_instance

theorem mem_handed {handed : SetID → SubID → List (SubgroupKey × UInt64)} {i j : SetID}
    {f f' : SubgroupKey × UInt64} {takes : SubID → Bool} {sub : SubID}
    (h : f' ∈ update handed i
      (fun sub => if takes sub then handed i sub ++ [f] else handed i sub) j sub) :
    f' ∈ handed j sub ∨ takes sub = true ∧ f' = f := by
  by_cases hj : j = i
  · subst hj
    rw [update_self] at h
    split_ifs at h with ht
    · exact (mem_append.mp h).imp_right fun h => ⟨ht, mem_singleton.mp h⟩
    · exact .inl h
  · rw [update_of_ne hj] at h
    exact .inl h

/-- **Every step that meets the condition keeps live delivery and the fill apart.** -/
theorem Joined.step {W W' : World} {a : Action} (hi : Joined W) (hok : W.FillExcluded a)
    (h : Step W a W') : Joined W' := by
  have hatt := hi.attached.step h
  rcases h.still_or_opening with hstill | hopen
  · refine hi.still hatt hstill ?_
    cases h with
    | @forwards c ct now verdict claim obj heard s cache hc hp hs hadm =>
      have hheard : ct.phase.heard = some heard := by rw [hp]; rfl
      have hadmits : W.admits ct = true := by
        cases claim with
        | agedOut =>
          have hrun : (W.sets ct.set).hasRun = true ∧ (W.sets ct.set).runHi < ct.objectID := by
            rw [hs] at hadm
            exact hadm rfl
          simpa [admits, Phase.offersAgedOut, hp] using hrun
        | fresh | redundant => simp [admits, Phase.offersAgedOut, hp]
      intro i sub f hf
      refine (mem_handed hf).imp_right ?_
      rintro ⟨hsub, rfl⟩
      rw [hs] at hsub
      obtain ⟨n, hn, hle⟩ : ∃ n, (W.sets ct.set).seqs sub = some (some n) ∧ n ≤ heard.count :=
        WriterSet.seqs_of_hands hsub
      have hknown : sub ∈ W.entry.downstream := hi.known ct.set sub (by simp [hn])
      have hok := hok ct hc hadmits heard hheard sub hknown hsub
      refine ⟨hknown, ?_⟩
      rcases Nat.lt_or_ge heard.noted (W.registered sub) with hlt | hge
      · -- registered after the note: only a writer without a number could take the Object
        have hnote : W.NoteFor ct.key ct.set ct.objectID heard :=
          .inr ⟨c, ct, hc, hheard, rfl, rfl, rfl⟩
        rcases (hi.notes _ _ _ heard hnote).2 sub n hn hlt with rfl | hgt
        · exact absurd ⟨hn, hlt⟩ hok.1
        · exact absurd hle (Nat.not_le.mpr hgt)
      · exact fun hmem => hok.2 ⟨hge, hmem⟩
    | _ => exact fun _ _ _ hf => .inl hf
  · cases hopen with
    | makes hc hl => exact hi.makes hatt (makes_of rfl rfl) rfl
    | @openInitial c ct established subs gen lowest hc hp =>
      have hmoved : Joined (W.putContrib c { ct with phase := .loop }) :=
        hi.still (hi.attached.frame (seat_putContrib_of hc (by simp [hp]) nofun rfl rfl) rfl rfl)
          (.put rfl (.idle rfl rfl) (.refl (W.sets 0)) (fun _ _ => rfl)
            (fun _ _ refs h => ⟨refs, h⟩) rfl rfl rfl rfl rfl) fun _ _ _ hf => .inl hf
      exact hmoved.putSet ((W.sets ct.set).opens_openInitial W.cfg established subs gen lowest)
        fun sub hsub => hi.pending c ct hc sub (by rw [hp]; exact hsub)
    | @header c ct id obj established hc hp =>
      obtain ⟨subs, gen, hjoin, hnotes⟩ := W.headerRead_notes c ct id obj established
      have hopened := hi.putSet ((W.sets ct.set).opens_joiners W.cfg established subs gen)
        fun sub hsub => (hjoin.new sub hsub).1
      exact hopened.note hatt hc (by simp [hp]) hnotes (h.handed nofun)
    | register hsub => exact hi.register hatt hsub rfl

/-- **Live and fill never overlap**, in any interleaving in which no Object is handed over at
    the two points of `FillExcluded`: what a subscriber is handed, no contributor had read the
    header of before the subscriber was registered. -/
theorem live_not_in_fill {cfg : WriterSet.Config} {cache : ObjectCache} {as : List Action}
    {W : World} (hok : Lib.Along step FillExcluded (init cfg cache) as)
    (hrun : Lib.run step (init cfg cache) as = some W) (i : SetID) (sub : SubID) :
    ∀ f ∈ W.handed i sub, f ∉ W.headers.take (W.registered sub) := by
  have hstep : ∀ W a W', Joined W → W.FillExcluded a → W.step a = some W' → Joined W' :=
    fun W a W' hi ha h => hi.step ha (step_of h)
  exact (Lib.run_inv_along hstep (.init cfg cache) hok hrun).clear i sub

/-- What subscriber 0 was handed through set 0, and what its fill covers. -/
def liveAndFill (W : World) : List (SubgroupKey × UInt64) × List (SubgroupKey × UInt64) :=
  (W.handed 0 0, W.headers.take (W.registered 0))

/-- Subscriber 0 is registered while Object 5 is read, by two contributors, and is handed only
    Object 6. -/
def joining : List Action :=
  List.flatten
    [opening 0 {}, [.acquire 1 {} none, .header 0 5 {} fun _ => true, .register 0],
      reading 1 5, reading 1 6]

theorem live_not_in_fill_joining :
    (Lib.run step (init ⟨8, 0⟩ (.new 4 0)) joining).map liveAndFill =
      some ([(⟨0, 0⟩, 6)], [(⟨0, 0⟩, 5)]) ∧
    ∀ W, Lib.run step (init ⟨8, 0⟩ (.new 4 0)) joining = some W →
      ∀ f ∈ W.handed 0 0, f ∉ W.headers.take (W.registered 0) := by
  refine ⟨by decide +kernel, ?_⟩
  intro W hrun
  exact live_not_in_fill (by decide +kernel) hrun 0 0

/-- The maker of the set opens its writers after another contributor has read Object 5. -/
def openingLate : List Action :=
  List.flatten
    [[.acquire 0 {} none, .acquire 1 {} none, .header 1 5 {} fun _ => true, .register 0,
        .copyDownstream 0, .lowestForwarded 0, .openInitial 0 fun _ => true],
      [.claim 1 0, .forward 1 0 fun _ => .forward]]

/-- The only reader of Object 5 abandons it, and another reads it again. -/
def abandoning : List Action :=
  List.flatten
    [opening 0 {}, [.acquire 1 {} none, .header 0 5 {} fun _ => true, .abandon 0, .done 0,
      .register 0], reading 1 5]

/-- Both times the Object is in the fill of subscriber 0, and handed to it. -/
theorem live_in_fill :
    (Lib.run step (init ⟨8, 0⟩ (.new 4 0)) openingLate).map liveAndFill =
      some ([(⟨0, 0⟩, 5)], [(⟨0, 0⟩, 5)]) ∧
    (Lib.run step (init ⟨8, 0⟩ (.new 4 0)) abandoning).map liveAndFill =
      some ([(⟨0, 0⟩, 5)], [(⟨0, 0⟩, 5)]) := by
  decide +kernel

end World

end MoqGo.Relay
