import MoqGo.Relay.Fanout.Join

/-!
# Nothing is lost to a joining subscriber

A set looks for new subscribers only when the track's generation, which counts registrations,
differs from the one it last saw. Contributors and the maker of the set all overwrite that
number, the maker possibly with an older one. What keeps this safe is that **a set never stands
at a generation some of whose registrations it has no writer for**: whoever writes the number
has, under the same lock, opened the writers it stands for.

Here subscribers also leave (`Event`). A subscriber that joins is followed from its
registration on, the `gen`th of the track and made after `count` headers were read. `Heard`
is what holds before it and afterwards of every subscriber; `Served` is what holds afterwards
of that one.
-/

namespace MoqGo.Relay

open Message List Function

namespace WriterSet

/-! ## The writer of one subscriber -/

/-- The subscriber has no writer, or one whose number was given out; never a nil one. -/
def Numbered (sub : SubID) (s : WriterSet) : Prop :=
  s.seqs sub = none ∨ ∃ n ≤ s.opened, s.seqs sub = some (some n)

/-- From `s` to `s'`, the writer of `sub` stays what it was, or is opened. -/
structure Serves (sub : SubID) (s s' : WriterSet) : Prop where
  opened : s.opened ≤ s'.opened
  kept : s.seqs sub ≠ none → s'.seqs sub = s.seqs sub
  numbered : Numbered sub s → Numbered sub s'

namespace Serves

variable {sub : SubID} {s s' s'' : WriterSet}

theorem refl (sub : SubID) (s : WriterSet) : Serves sub s s :=
  ⟨Nat.le_refl _, fun _ => rfl, id⟩

theorem of_seqs (hopened : s.opened ≤ s'.opened) (h : s'.seqs sub = s.seqs sub) :
    Serves sub s s' := by
  refine ⟨hopened, fun _ => h, ?_⟩
  intro hnum
  rcases hnum with hnone | ⟨n, hn, hseq⟩
  · exact .inl (h.trans hnone)
  · exact .inr ⟨n, hn.trans hopened, h.trans hseq⟩

theorem of_quiet (h : Quiet s s') : Serves sub s s' :=
  of_seqs h.opened.ge (congrFun h.seqs sub)

theorem trans (h : Serves sub s s') (h' : Serves sub s' s'') : Serves sub s s'' := by
  refine ⟨h.opened.trans h'.opened, ?_, fun hnum => h'.numbered (h.numbered hnum)⟩
  intro hs
  have hkept := h.kept hs
  exact (h'.kept (hkept ▸ hs)).trans hkept

theorem foldl {f : WriterSet → SubID → WriterSet} (hf : ∀ s x, Serves sub s (f s x)) :
    ∀ (l : List SubID) (s : WriterSet), Serves sub s (l.foldl f s) := by
  intro l
  induction l with
  | nil => exact fun s => refl sub s
  | cons x l ih => exact fun s => (hf s x).trans (ih (f s x))

end Serves

theorem foldl_ne_none {f : WriterSet → SubID → WriterSet} {sub : SubID}
    (hkeep : ∀ s x, s.seqs sub ≠ none → (f s x).seqs sub ≠ none)
    (hself : ∀ s, (f s sub).seqs sub ≠ none) :
    ∀ (l : List SubID) (s : WriterSet), s.seqs sub ≠ none ∨ sub ∈ l →
      (l.foldl f s).seqs sub ≠ none := by
  intro l
  induction l with
  | nil => exact fun s h => h.resolve_right not_mem_nil
  | cons x l ih =>
    intro s h
    apply ih
    rcases h with h | h
    · exact .inl (hkeep s x h)
    · rcases mem_cons.mp h with rfl | h
      · exact .inl (hself s)
      · exact .inr h

section

variable (s : WriterSet) (cfg : Config) {established : SubID → Bool} {sub : SubID}

theorem opened_openWriterForSub (established : SubID → Bool) (x : SubID) :
    (s.openWriterForSub cfg established x).opened = s.opened := by
  unfold openWriterForSub
  split_ifs <;> rfl

theorem openWriterForSub_ne_none (established : SubID → Bool) (sub : SubID) :
    (s.openWriterForSub cfg established sub).seqs sub ≠ none := by
  unfold openWriterForSub
  split_ifs with hsome
  · simpa [seqs, Option.isSome_iff_ne_none] using hsome
  all_goals simp [seqs]

theorem serves_openWriterForSub (hest : established sub = true) (x : SubID) :
    Serves sub s (s.openWriterForSub cfg established x) := by
  by_cases hx : sub = x ∧ s.writers sub = none
  · obtain ⟨rfl, hnone⟩ := hx
    refine ⟨(s.opened_openWriterForSub cfg established sub).ge, ?_, ?_⟩
    · intro hs
      exact absurd (by simp [seqs, hnone]) hs
    · intro _
      refine .inr ⟨0, Nat.zero_le _, ?_⟩
      simp [openWriterForSub, seqs, hnone, hest]
  · apply Serves.of_seqs (s.opened_openWriterForSub cfg established x).ge
    unfold openWriterForSub
    split_ifs with hsome
    · rfl
    all_goals
      have hne : sub ≠ x := by
        rintro rfl
        exact hx ⟨rfl, by simpa using hsome⟩
      simp [seqs, update_of_ne hne]

theorem opened_joinWriter (established : SubID → Bool) (x : SubID) :
    s.opened ≤ (s.joinWriter cfg established x).opened := by
  unfold joinWriter
  simp only
  split
  · simp [opened_openWriterForSub]
  · exact (s.opened_openWriterForSub cfg established x).ge

theorem joinWriter_of_ne (established : SubID → Bool) {x : SubID} (hx : sub ≠ x) :
    (s.joinWriter cfg established x).seqs sub = s.seqs sub := by
  have hopen : (s.openWriterForSub cfg established x).seqs sub = s.seqs sub := by
    unfold openWriterForSub
    split_ifs
    · rfl
    all_goals simp [seqs, update_of_ne hx]
  unfold joinWriter
  simp only
  split
  · simpa [seqs, update_of_ne hx] using hopen
  · exact hopen

theorem joinWriter_self (hest : established sub = true) (hnum : Numbered sub s) :
    ∃ n ≤ (s.joinWriter cfg established sub).opened,
      (s.joinWriter cfg established sub).seqs sub = some (some n) := by
  obtain ⟨w, hw⟩ : ∃ w, (s.openWriterForSub cfg established sub).writers sub = some (some w) := by
    rcases (s.serves_openWriterForSub cfg hest sub).numbered hnum with hnone | ⟨n, -, hn⟩
    · exact absurd hnone (s.openWriterForSub_ne_none cfg established sub)
    · rw [seqs] at hn
      rcases h : (s.openWriterForSub cfg established sub).writers sub with _ | _ | w <;>
        simp [h] at hn
      exact ⟨w, rfl⟩
  simp only [joinWriter, hw]
  exact ⟨_, Nat.le_refl _, by simp [seqs]⟩

/-- **The joiner scan** of `headerRead`, over subscribers that have no writer. -/
theorem serves_joiners (hest : established sub = true) {subs : List SubID}
    (hsubs : sub ∈ subs → s.writers sub = none) :
    Serves sub s (subs.foldl (fun s x => s.joinWriter cfg established x) s) := by
  have hopened : ∀ (l : List SubID) (s : WriterSet),
      s.opened ≤ (l.foldl (fun s x => s.joinWriter cfg established x) s).opened := by
    intro l
    induction l with
    | nil => exact fun s => Nat.le_refl _
    | cons x l ih => exact fun s => (s.opened_joinWriter cfg established x).trans (ih _)
  refine ⟨hopened subs s, ?_, ?_⟩
  · intro hs
    have hmem : sub ∉ subs := by
      intro h
      exact hs (by simp [seqs, hsubs h])
    clear hsubs hs hopened
    induction subs generalizing s with
    | nil => rfl
    | cons x subs ih =>
      simp only [mem_cons, not_or] at hmem
      exact (ih _ hmem.2).trans (s.joinWriter_of_ne cfg established hmem.1)
  · clear hsubs hopened
    induction subs generalizing s with
    | nil => exact id
    | cons x subs ih =>
      intro hnum
      apply ih
      by_cases hx : sub = x
      · subst hx
        exact .inr (s.joinWriter_self cfg hest hnum)
      · have hopened := s.opened_joinWriter cfg established x
        exact (Serves.of_seqs hopened (s.joinWriter_of_ne cfg established hx)).numbered hnum

theorem joiners_ne_none (established : SubID → Bool) {subs : List SubID}
    (h : s.seqs sub ≠ none ∨ sub ∈ subs) :
    (subs.foldl (fun s x => s.joinWriter cfg established x) s).seqs sub ≠ none := by
  have hself : ∀ s : WriterSet, (s.joinWriter cfg established sub).seqs sub ≠ none := by
    intro s
    have hopen := s.openWriterForSub_ne_none cfg established sub
    unfold joinWriter
    simp only
    split
    · simp [seqs]
    · exact hopen
  refine foldl_ne_none ?_ hself subs s h
  intro s x hs
  by_cases hx : sub = x
  · exact hx ▸ hself s
  · rwa [s.joinWriter_of_ne cfg established hx]

end

theorem serves_openInitial (s : WriterSet) (cfg : Config) {established : SubID → Bool}
    {sub : SubID} (hest : established sub = true) (subs : List SubID) (gen : Nat)
    (lowest : Option UInt64) :
    Serves sub s (s.openInitial cfg established subs gen lowest) := by
  refine Serves.trans ?_
    (Serves.foldl (fun s x => s.serves_openWriterForSub cfg hest x) subs _)
  apply Serves.of_seqs
  · cases lowest with
    | none => exact Nat.le_refl _
    | some id =>
      simp only [lower]
      split_ifs <;> exact Nat.le_refl _
  · cases lowest with
    | none => rfl
    | some id =>
      simp only [lower]
      split_ifs <;> rfl

theorem openInitial_ne_none (s : WriterSet) (cfg : Config) (established : SubID → Bool)
    {sub : SubID} {subs : List SubID} (hsub : sub ∈ subs) (gen : Nat) (lowest : Option UInt64) :
    (s.openInitial cfg established subs gen lowest).seqs sub ≠ none := by
  refine foldl_ne_none ?_ (fun s => s.openWriterForSub_ne_none cfg established sub) subs _
    (.inr hsub)
  intro s x hs
  by_cases hx : sub = x
  · exact hx ▸ s.openWriterForSub_ne_none cfg established sub
  · unfold openWriterForSub
    split_ifs
    · exact hs
    all_goals simpa [seqs, update_of_ne hx] using hs

theorem foldl_gen {f : WriterSet → SubID → WriterSet} (hf : ∀ s x, (f s x).gen = s.gen)
    (l : List SubID) (s : WriterSet) : (l.foldl f s).gen = s.gen := by
  induction l generalizing s with
  | nil => rfl
  | cons x l ih => exact (ih (f s x)).trans (hf s x)

section

variable (s : WriterSet) (cfg : Config) (established : SubID → Bool)

theorem gen_openWriterForSub (x : SubID) : (s.openWriterForSub cfg established x).gen = s.gen := by
  unfold openWriterForSub
  split_ifs <;> rfl

theorem gen_openInitial (subs : List SubID) (gen : Nat) (lowest : Option UInt64) :
    (s.openInitial cfg established subs gen lowest).gen = gen := by
  refine (foldl_gen (fun s x => s.gen_openWriterForSub cfg established x) subs _).trans ?_
  cases lowest with
  | none => rfl
  | some id =>
    simp only [lower]
    split_ifs <;> rfl

theorem gen_joiners
    (l : List SubID) : (l.foldl (fun s x => s.joinWriter cfg established x) s).gen = s.gen := by
  apply foldl_gen
  intro s x
  refine Eq.trans ?_ (s.gen_openWriterForSub cfg established x)
  unfold joinWriter
  simp only
  split <;> rfl

end

end WriterSet

namespace World

/-! ## What holds of every subscriber -/

/-- `K` holds of every subscriber the track ever had. -/
structure Noted (K : SubID → Prop) (W : World) : Prop where
  attached : Attached W
  /-- A note counts the headers read before the one it was made for. -/
  notes : ∀ k i id h, W.NoteFor k i id h → W.headers[h.noted]? = some (k, id)
  /-- No set is ahead of the track. -/
  gen : ∀ i, (W.sets i).gen ≤ W.entry.downstreamGen
  snapshot : ∀ c ct, W.contribs c = some ct → ∀ subs gen, ct.phase.snapshot = some (subs, gen) →
    gen ≤ W.entry.downstreamGen ∧ ∀ sub ∈ subs, K sub
  down : ∀ sub ∈ W.entry.downstream, K sub
  known : ∀ i sub, (W.sets i).seqs sub ≠ none → K sub

namespace Noted

variable {K : SubID → Prop} {W W' : World}

theorem init (cfg : WriterSet.Config) (cache : ObjectCache) : Noted K (init cfg cache) := by
  refine ⟨.init cfg cache, ?_, ?_, ?_, ?_, ?_⟩
  all_goals simp [World.init, WriterSet.seqs, NoteFor]

theorem still (hi : Noted K W) (hatt : Attached W') (h : Still W W') : Noted K W' := by
  refine ⟨hatt, ?_, ?_, ?_, ?_, ?_⟩
  · intro k i id hd hn
    rw [h.headers]
    exact hi.notes k i id hd (h.noteFor hn)
  · intro i
    rw [(h.sets i).gen, h.downstreamGen]
    exact hi.gen i
  · intro c ct' hc' subs gen hs
    rw [h.downstreamGen]
    rcases (h.contribs c ct' hc').snapshot _ hs with hnow | ⟨ct, hc, hs⟩
    · cases hnow
      exact ⟨Nat.le_refl _, hi.down⟩
    · exact hi.snapshot c ct hc subs gen hs
  · rw [h.downstream]
    exact hi.down
  · intro i sub hk
    rw [(h.sets i).seqs] at hk
    exact hi.known i sub hk

theorem putSet (hi : Noted K W) {i : SetID} {s : WriterSet} {subs : List SubID}
    (hs : WriterSet.Opens subs (W.sets i) s) (hsubs : ∀ sub ∈ subs, K sub)
    (hgen : s.gen ≤ W.entry.downstreamGen) : Noted K (W.putSet i s) := by
  refine ⟨hi.attached.frame (fun _ => rfl) rfl rfl,
    fun k j id h hn => hi.notes k j id h (noteFor_putSet hs hn), ?_, hi.snapshot, hi.down, ?_⟩
  · exact (forall_update_iff W.sets fun _ s => s.gen ≤ W.entry.downstreamGen).mpr
      ⟨hgen, fun j _ => hi.gen j⟩
  · intro j sub hk
    exact ((opens_putSet hs j).known sub hk).elim (hi.known j sub) (hsubs sub)

theorem makes (hi : Noted K W) (hatt : Attached W') (h : Makes W W') : Noted K W' := by
  obtain ⟨hdr, hsets⟩ := h.sets
  refine ⟨hatt, ?_, ?_, ?_, ?_, ?_⟩
  · intro k i id hd hn
    rw [h.headers]
    exact hi.notes k i id hd (h.noteFor hi.attached hn).2
  · intro j
    rw [hsets, h.downstreamGen]
    split_ifs
    · exact Nat.zero_le _
    · exact hi.gen j
  · intro c ct hc subs gen hs
    rw [h.downstreamGen]
    rcases h.contribs c ct hc with hc | ⟨hnone, -⟩
    · exact hi.snapshot c ct hc subs gen hs
    · cases hnone.symm.trans hs
  · rw [h.downstream]
    exact hi.down
  · intro j sub hk
    rw [hsets] at hk
    split_ifs at hk
    · exact absurd rfl hk
    · exact hi.known j sub hk

theorem note (hi : Noted K W) (hatt : Attached W') {c : ContribID} {ct : Contributor}
    {id : UInt64} (hc : W.contribs c = some ct) (hp : ct.phase ≠ .left)
    (h : Notes W W' ct id) : Noted K W' := by
  refine ⟨hatt, ?_, ?_, ?_, ?_, ?_⟩
  · intro k i id' hd hn
    rw [h.headers]
    rcases h.noteFor hi.attached hc hp hn with hn | ⟨rfl, -, rfl, rfl⟩
    · -- a header read before stays at its place
      have hat := hi.notes k i id' hd hn
      obtain ⟨hlt, -⟩ := List.getElem?_eq_some_iff.mp hat
      rw [List.getElem?_append_left hlt, hat]
    · simp
  · intro i
    rw [(h.sets i).2.1, h.downstreamGen]
    exact hi.gen i
  · intro c' ct' hc' subs gen hs
    rw [h.downstreamGen]
    rcases h.contribs c' ct' hc' with hc' | ⟨-, -, -, hsnap, -⟩
    · exact hi.snapshot c' ct' hc' subs gen hs
    · cases hsnap.symm.trans hs
  · rw [h.downstream]
    exact hi.down
  · intro i sub hk
    rw [(h.sets i).2.2] at hk
    exact hi.known i sub hk

end Noted

/-! ## Subscribers that leave -/

/-- A step of the fan-out, or a subscriber's leaving. -/
inductive Event
  | act (a : Action)
  | removeDownstream (sub : SubID)

/-- One step. -/
def next (W : World) : Event → Option World
  | .act a => W.step a
  | .removeDownstream sub => some { W with entry := W.entry.removeDownstream sub }

theorem Noted.next {K : SubID → Prop} {W W' : World} {e : Event} (hi : Noted K W)
    (hk : ∀ sub, e = .act (.register sub) → K sub) (h : W.next e = some W') : Noted K W' := by
  cases e with
  | removeDownstream sub =>
    cases h
    refine ⟨hi.attached.frame (fun _ => rfl) rfl rfl, hi.notes, hi.gen, hi.snapshot, ?_, hi.known⟩
    intro x hx
    exact hi.down x (mem_of_mem_filter hx)
  | act a =>
    have hstep := step_of h
    have hatt := hi.attached.step hstep
    rcases hstep.still_or_opening with hstill | hopen
    · exact hi.still hatt hstill
    cases hopen with
    | makes hc hl => exact hi.makes hatt (makes_of rfl rfl)
    | @openInitial c ct established subs gen lowest hc hp =>
      have hs := hi.snapshot c ct hc subs gen (by rw [hp]; rfl)
      have hmoved : Noted K (W.putContrib c { ct with phase := .loop }) :=
        hi.still (hi.attached.frame (seat_putContrib_of hc (by simp [hp]) nofun rfl rfl) rfl rfl)
          (.put rfl (.idle rfl rfl) (.refl (W.sets 0)) (fun _ _ => rfl)
            (fun _ _ refs h => ⟨refs, h⟩) rfl rfl rfl rfl rfl)
      refine hmoved.putSet ((W.sets ct.set).opens_openInitial W.cfg established subs gen lowest)
        hs.2 ?_
      rw [WriterSet.gen_openInitial]
      exact hs.1
    | @header c ct id obj established hc hp =>
      obtain ⟨subs, gen, hjoin, hnotes⟩ := W.headerRead_notes c ct id obj established
      have hgen := WriterSet.gen_joiners { W.sets ct.set with gen := gen } W.cfg established subs
      have hopened := hi.putSet ((W.sets ct.set).opens_joiners W.cfg established subs gen)
        (fun sub hsub => hi.down sub (hjoin.new sub hsub).1) (hgen.trans hjoin.latest).le
      exact hopened.note hatt hc (by simp [hp]) hnotes
    | @register sub =>
      refine ⟨hatt, hi.notes, ?_, ?_, ?_, hi.known⟩
      · intro i
        exact (hi.gen i).trans (Nat.le_succ _)
      · intro c ct hc subs gen hs
        obtain ⟨hgen, hall⟩ := hi.snapshot c ct hc subs gen hs
        exact ⟨hgen.trans (Nat.le_succ _), hall⟩
      · intro x hx
        rcases mem_append.mp hx with hx | hx
        · exact hi.down x hx
        · exact hk x (by rw [mem_singleton.mp hx])

/-! ## What holds of a subscriber that joined -/

/-- `forward` offers an Object whose note counts `count` writers to the subscriber's. -/
def Offers (W : World) (sub : SubID) (i : SetID) (count : Nat) : Prop :=
  ∃ n ≤ count, (W.sets i).seqs sub = some (some n)

/-- `sub` was registered when the track stood at generation `g` and the headers `H` had been
    read. -/
structure Served (sub : SubID) (g : Nat) (H : List (SubgroupKey × UInt64)) (W : World) : Prop where
  noted : Noted (fun _ => True) W
  headers : H <+: W.headers
  down : sub ∈ W.entry.downstream
  gen : g < W.entry.downstreamGen
  numbered : ∀ i, (W.sets i).Numbered sub
  /-- **A set that stands past the registration has the writer.** -/
  writer : ∀ i, g < (W.sets i).gen → (W.sets i).seqs sub ≠ none
  snapshot : ∀ c ct, W.contribs c = some ct → ∀ subs gen, ct.phase.snapshot = some (subs, gen) →
    g < gen → sub ∈ subs
  notes : ∀ k i id h, W.NoteFor k i id h → H.length ≤ h.noted → W.Offers sub i h.count

namespace Served

variable {sub : SubID} {g : Nat} {H : List (SubgroupKey × UInt64)} {W W' : World}

/-- **A registration**: no set has a writer for the subscriber, and none stands past it. -/
theorem register (hi : Noted (· ≠ sub) W) (hnoted : Noted (fun _ => True) W')
    (hW' : W' = { W with
      entry := W.entry.addDownstreamSnapshotLargest sub
      registered := update W.registered sub W.headers.length }) :
    Served sub W.entry.downstreamGen W.headers W' := by
  subst hW'
  have hnone : ∀ i, (W.sets i).seqs sub = none := by
    intro i
    by_contra hk
    exact hi.known i sub hk rfl
  refine ⟨hnoted, prefix_rfl, by simp [TrackEntry.addDownstreamSnapshotLargest],
    Nat.lt_succ_self _, fun i => .inl (hnone i), ?_, ?_, ?_⟩
  · intro i hlt
    exact absurd (hi.gen i) (Nat.not_le.mpr hlt)
  · intro c ct hc subs gen hs hlt
    exact absurd (hi.snapshot c ct hc subs gen hs).1 (Nat.not_le.mpr hlt)
  · intro k i id h hn hle
    obtain ⟨hlt, -⟩ := List.getElem?_eq_some_iff.mp (hi.notes k i id h hn)
    exact absurd hle (Nat.not_le.mpr hlt)

theorem still (hi : Served sub g H W) (hnoted : Noted (fun _ => True) W') (h : Still W W') :
    Served sub g H W' := by
  have hoffers : ∀ i count, W.Offers sub i count → W'.Offers sub i count := by
    intro i count ho
    rw [Offers, (h.sets i).seqs]
    exact ho
  refine ⟨hnoted, ?_, ?_, ?_, ?_, ?_, ?_, ?_⟩
  · rw [h.headers]
    exact hi.headers
  · rw [h.downstream]
    exact hi.down
  · rw [h.downstreamGen]
    exact hi.gen
  · intro i
    exact (WriterSet.Serves.of_quiet (h.sets i)).numbered (hi.numbered i)
  · intro i hlt
    rw [(h.sets i).gen] at hlt
    rw [(h.sets i).seqs]
    exact hi.writer i hlt
  · intro c ct' hc' subs gen hs hlt
    rcases (h.contribs c ct' hc').snapshot _ hs with hnow | ⟨ct, hc, hs⟩
    · cases hnow
      exact hi.down
    · exact hi.snapshot c ct hc subs gen hs hlt
  · intro k i id hd hn hle
    exact hoffers i _ (hi.notes k i id hd (h.noteFor hn) hle)

theorem offers_putSet {i j : SetID} {s : WriterSet} {count : Nat}
    (hs : WriterSet.Serves sub (W.sets i) s) (h : W.Offers sub j count) :
    (W.putSet i s).Offers sub j count := by
  obtain ⟨m, hm, hseq⟩ := h
  refine ⟨m, hm, ?_⟩
  by_cases hj : j = i
  · subst hj
    have hkept := hs.kept (by simp [hseq])
    simpa [World.putSet] using hkept.trans hseq
  · simpa [World.putSet, update_of_ne hj] using hseq

theorem putSet (hi : Served sub g H W) {i : SetID} {s : WriterSet} {subs : List SubID}
    (hnoted : Noted (fun _ => True) (W.putSet i s)) (hs : WriterSet.Serves sub (W.sets i) s)
    (hwriter : g < s.gen → s.seqs sub ≠ none) (hopens : WriterSet.Opens subs (W.sets i) s) :
    Served sub g H (W.putSet i s) := by
  refine ⟨hnoted, hi.headers, hi.down, hi.gen, ?_, ?_, hi.snapshot, ?_⟩
  · exact (forall_update_iff W.sets fun _ s => s.Numbered sub).mpr
      ⟨hs.numbered (hi.numbered i), fun j _ => hi.numbered j⟩
  · exact (forall_update_iff W.sets fun _ s => g < s.gen → s.seqs sub ≠ none).mpr
      ⟨hwriter, fun j _ => hi.writer j⟩
  · intro k j id h hn hle
    exact offers_putSet hs (hi.notes k j id h (noteFor_putSet hopens hn) hle)

theorem makes (hi : Served sub g H W) (hnoted : Noted (fun _ => True) W') (h : Makes W W') :
    Served sub g H W' := by
  obtain ⟨hdr, hsets⟩ := h.sets
  have hoffers : ∀ i count, i ≠ W.nextSet → W.Offers sub i count → W'.Offers sub i count := by
    intro i count hne ho
    rw [Offers, hsets, if_neg hne]
    exact ho
  refine ⟨hnoted, ?_, ?_, ?_, ?_, ?_, ?_, ?_⟩
  · rw [h.headers]
    exact hi.headers
  · rw [h.downstream]
    exact hi.down
  · rw [h.downstreamGen]
    exact hi.gen
  · intro j
    rw [hsets]
    split_ifs
    · exact .inl rfl
    · exact hi.numbered j
  · intro j hlt
    rw [hsets] at hlt ⊢
    split_ifs at hlt ⊢
    · exact absurd hlt (Nat.not_lt_zero _)
    · exact hi.writer j hlt
  · intro c ct hc subs gen hs hlt
    rcases h.contribs c ct hc with hc | ⟨hnone, -⟩
    · exact hi.snapshot c ct hc subs gen hs hlt
    · cases hnone.symm.trans hs
  · intro k i id hd hn hle
    obtain ⟨hne, hn⟩ := h.noteFor hi.noted.attached hn
    exact hoffers i _ hne (hi.notes k i id hd hn hle)

theorem note (hi : Served sub g H W) (hnoted : Noted (fun _ => True) W') {c : ContribID}
    {ct : Contributor} {id : UInt64} (hc : W.contribs c = some ct) (hp : ct.phase ≠ .left)
    (hwriter : (W.sets ct.set).seqs sub ≠ none) (h : Notes W W' ct id) : Served sub g H W' := by
  have hoffers : ∀ i count, W.Offers sub i count → W'.Offers sub i count := by
    intro i count ho
    rw [Offers, (h.sets i).2.2]
    exact ho
  refine ⟨hnoted, ?_, ?_, ?_, ?_, ?_, ?_, ?_⟩
  · rw [h.headers]
    exact hi.headers.trans (prefix_append _ _)
  · rw [h.downstream]
    exact hi.down
  · rw [h.downstreamGen]
    exact hi.gen
  · intro i
    rw [WriterSet.Numbered, (h.sets i).1, (h.sets i).2.2]
    exact hi.numbered i
  · intro i hlt
    rw [(h.sets i).2.1] at hlt
    rw [(h.sets i).2.2]
    exact hi.writer i hlt
  · intro c' ct' hc' subs gen hs hlt
    rcases h.contribs c' ct' hc' with hc' | ⟨-, -, -, hsnap, -⟩
    · exact hi.snapshot c' ct' hc' subs gen hs hlt
    · cases hsnap.symm.trans hs
  · intro k i id' hd hn hle
    apply hoffers
    rcases h.noteFor hi.noted.attached hc hp hn with hn | ⟨-, rfl, -, rfl⟩
    · exact hi.notes k i id' hd hn hle
    · exact (hi.numbered ct.set).resolve_left hwriter

end Served

/-! ## Whole runs -/

/-- The event does not remove the subscriber, and finds its subscription established. -/
def Event.Keeps (sub : SubID) : Event → Prop
  | .act (.openInitial _ established) | .act (.header _ _ _ established) => established sub = true
  | .act _ => True
  | .removeDownstream x => x ≠ sub

instance (sub : SubID) (e : Event) : Decidable (e.Keeps sub) := by
  unfold Event.Keeps
  split <;> infer_instance

theorem Served.next {sub : SubID} {g : Nat} {H : List (SubgroupKey × UInt64)} {W W' : World}
    {e : Event} (hi : Served sub g H W) (he : e.Keeps sub) (h : W.next e = some W') :
    Served sub g H W' := by
  have hnoted : Noted (fun _ => True) W' := hi.noted.next (fun _ _ => trivial) h
  cases e with
  | removeDownstream x =>
    cases h
    refine ⟨hnoted, hi.headers, ?_, hi.gen, hi.numbered, hi.writer, hi.snapshot, hi.notes⟩
    exact mem_filter.mpr ⟨hi.down, by simpa using Ne.symm he⟩
  | act a =>
    rcases (step_of h).still_or_opening with hstill | hopen
    · exact hi.still hnoted hstill
    cases hopen with
    | makes hc hl => exact hi.makes hnoted (makes_of rfl rfl)
    | @openInitial c ct established subs gen lowest hc hp =>
      have hs := hi.snapshot c ct hc subs gen (by rw [hp]; rfl)
      have hstill : Still W (W.putContrib c { ct with phase := .loop }) :=
        .put rfl (.idle rfl rfl) (.refl (W.sets 0)) (fun _ _ => rfl) (fun _ _ refs h => ⟨refs, h⟩)
          rfl rfl rfl rfl rfl
      have hatt : Attached (W.putContrib c { ct with phase := .loop }) :=
        hi.noted.attached.frame (seat_putContrib_of hc (by simp [hp]) nofun rfl rfl) rfl rfl
      refine (hi.still (hi.noted.still hatt hstill) hstill).putSet hnoted
        ((W.sets ct.set).serves_openInitial W.cfg he subs gen lowest) ?_
        ((W.sets ct.set).opens_openInitial W.cfg established subs gen lowest)
      intro hlt
      rw [WriterSet.gen_openInitial] at hlt
      exact (W.sets ct.set).openInitial_ne_none W.cfg established (hs hlt) gen lowest
    | @header c ct id obj established hc hp =>
      obtain ⟨subs, gen, hjoin, hnotes⟩ := W.headerRead_notes c ct id obj established
      have hopens := (W.sets ct.set).opens_joiners W.cfg established subs gen
      have hgen := WriterSet.gen_joiners { W.sets ct.set with gen := gen } W.cfg established subs
      have hserves := WriterSet.serves_joiners { W.sets ct.set with gen := gen } W.cfg he
        (fun hsub => (hjoin.new sub hsub).2)
      -- the scan is skipped only where the set stands at the track's generation
      have hfound : (W.sets ct.set).seqs sub ≠ none ∨ sub ∈ subs := by
        by_contra hno
        rw [not_or, not_not] at hno
        have hnone : (W.sets ct.set).writers sub = none := by
          simpa [WriterSet.seqs] using hno.1
        have hsame : (W.sets ct.set).gen = gen := by
          by_contra hne
          exact hno.2 (hjoin.all hne sub hi.down hnone)
        refine hi.writer ct.set ?_ hno.1
        rw [hsame, hjoin.latest]
        exact hi.gen
      have hwriter := WriterSet.joiners_ne_none { W.sets ct.set with gen := gen } W.cfg
        established hfound
      have hopened := hi.putSet
        (hi.noted.putSet hopens (fun _ _ => trivial) (hgen.trans hjoin.latest).le)
        ⟨hserves.opened, hserves.kept, hserves.numbered⟩ (fun _ => hwriter) hopens
      refine hopened.note hnoted hc (by simp [hp]) ?_ hnotes
      simpa [World.putSet] using hwriter
    | @register x =>
      exact ⟨hnoted, hi.headers, mem_append_left _ hi.down, hi.gen.trans (Nat.lt_succ_self _),
        hi.numbered, hi.writer, hi.snapshot, hi.notes⟩

theorem noted_of_run {cfg : WriterSet.Config} {cache : ObjectCache} {events : List Event}
    {sub : SubID} {W : World} (hrun : Lib.run next (init cfg cache) events = some W)
    (hnew : ∀ e ∈ events, e ≠ .act (.register sub)) : Noted (· ≠ sub) W := by
  refine Lib.run_inv_along ?_ (.init cfg cache) (Lib.along_of_mem hnew _) hrun
  intro W e W' hi he hstep
  refine hi.next ?_ hstep
  intro x hx hsub
  exact he (hsub ▸ hx)

/-- **No Object is lost to a joining subscriber.** After a subscriber's registration, in any
    interleaving that keeps it registered and finds it established, a contributor about to
    forward an Object none of whose headers had been read before the registration finds the
    subscriber's writer in its set, and `forward` offers the Object to it. -/
theorem joiner_is_offered {cfg : WriterSet.Config} {cache : ObjectCache} {before after : List Event}
    {sub : SubID} {W₀ W₁ W : World} (hbefore : Lib.run next (init cfg cache) before = some W₀)
    (hnew : ∀ e ∈ before, e ≠ .act (.register sub))
    (hregister : W₀.next (.act (.register sub)) = some W₁)
    (hafter : Lib.run next W₁ after = some W) (hkeeps : ∀ e ∈ after, e.Keeps sub)
    {c : ContribID} {ct : Contributor} {claim : Claim} {obj : SubgroupObject} {heard : Heard}
    (hc : W.contribs c = some ct) (hp : ct.phase = .claimed claim obj heard)
    (hfirst : (ct.key, ct.objectID) ∉ W₀.headers) :
    ∃ w, (W.sets ct.set).writers sub = some (some w) ∧ w.seq ≤ heard.count := by
  have hunknown : Noted (· ≠ sub) W₀ := noted_of_run hbefore hnew
  have hknown : Noted (fun _ => True) W₁ := by
    have hany : Noted (fun _ => True) W₀ := ⟨hunknown.attached, hunknown.notes, hunknown.gen,
      fun c ct hc subs gen hs => ⟨(hunknown.snapshot c ct hc subs gen hs).1, fun _ _ => trivial⟩,
      fun _ _ => trivial, fun _ _ _ => trivial⟩
    exact hany.next (fun _ _ => trivial) hregister
  have hjoined : Served sub W₀.entry.downstreamGen W₀.headers W₁ := by
    simp only [next, step] at hregister
    split_ifs at hregister
    exact .register hunknown hknown (Option.some.inj hregister).symm
  have hserved : Served sub W₀.entry.downstreamGen W₀.headers W :=
    Lib.run_inv_along (fun _ _ _ hi he h => hi.next he h) hjoined (Lib.along_of_mem hkeeps _) hafter
  have hnote : W.NoteFor ct.key ct.set ct.objectID heard :=
    .inr ⟨c, ct, hc, by rw [hp]; rfl, rfl, rfl, rfl⟩
  have hlate : W₀.headers.length ≤ heard.noted := by
    by_contra hlt
    rw [Nat.not_le] at hlt
    have hat := hserved.noted.notes _ _ _ heard hnote
    obtain ⟨later, hlater⟩ := hserved.headers
    rw [← hlater, List.getElem?_append_left hlt] at hat
    exact hfirst (mem_of_getElem? hat)
  obtain ⟨n, hn, hseq⟩ := hserved.notes _ _ _ heard hnote hlate
  rw [WriterSet.seqs] at hseq
  rcases hw : (W.sets ct.set).writers sub with _ | _ | w <;> simp [hw] at hseq
  exact ⟨w, rfl, hseq.trans_le hn⟩

def beforeJoin : List Event :=
  (opening 0 {} ++ reading 0 4).map .act ++ [.act (.register 1), .removeDownstream 1]

def afterJoin : List Event :=
  [.act (.header 0 5 {} fun _ => true), .act (.claim 0 0)]

theorem joiner_is_offered_next_object :
    ∃ W₀ W₁ W ct w, Lib.run next (init ⟨8, 0⟩ (.new 4 0)) beforeJoin = some W₀ ∧
      W₀.next (.act (.register 0)) = some W₁ ∧ Lib.run next W₁ afterJoin = some W ∧
      W.contribs 0 = some ct ∧ ct.phase = .claimed .fresh {} ⟨1, 1⟩ ∧
      (W.sets ct.set).writers 0 = some (some w) ∧ w.seq ≤ 1 := by
  have hsome : (Lib.run next (init ⟨8, 0⟩ (.new 4 0)) beforeJoin).map (·.headers) =
      some [(⟨0, 0⟩, 4)] := by decide +kernel
  have hlast : ((Lib.run next (init ⟨8, 0⟩ (.new 4 0))
      (beforeJoin ++ .act (.register 0) :: afterJoin)).bind (·.contribs 0)).map
        (fun ct => (ct.phase, ct.key, ct.objectID)) =
      some (.claimed .fresh {} ⟨1, 1⟩, ⟨0, 0⟩, 5) := by decide +kernel
  obtain ⟨W₀, hbefore, hheaders⟩ := Option.map_eq_some_iff.mp hsome
  obtain ⟨ct, hbind, hct⟩ := Option.map_eq_some_iff.mp hlast
  obtain ⟨W, hrun, hc⟩ := Option.bind_eq_some_iff.mp hbind
  obtain ⟨W₀', hbefore', hrest⟩ := Lib.run_append.mp hrun
  obtain rfl : W₀ = W₀' := Option.some.inj (hbefore.symm.trans hbefore')
  obtain ⟨W₁, hregister, hafter⟩ := Lib.run_cons.mp hrest
  have hphase : ct.phase = .claimed .fresh {} ⟨1, 1⟩ := congrArg Prod.fst hct
  have hobject : (ct.key, ct.objectID) = (⟨0, 0⟩, 5) := congrArg Prod.snd hct
  obtain ⟨w, hw, hseq⟩ := joiner_is_offered hbefore (by simp [beforeJoin, opening, reading])
    hregister hafter (by decide) hc hphase (by rw [hobject, hheaders]; decide)
  exact ⟨W₀, W₁, W, ct, w, hbefore, hregister, hafter, hc, hphase, hw, hseq⟩

end World

end MoqGo.Relay
