import MoqGo.Relay.Fanout.Attach

/-!
# What holds of every writer

Several properties of the fan-out are properties of *one* writer and its history, in any run of the
whole. `WriterKept` lists what such a property has to survive besides being offered an Object: the
writer is opened, numbered, closed, dequeues and finishes. `EachWriter.quiet` is the rule for the
steps that offer nothing, `EachWriter.offers` the frame of the one that does.

`live` is whether contributors can still reach the writer. The rule is where the registry's counting
of contributors is used, and a closed writer's property may rely on it.
-/

namespace MoqGo.Relay

open Message
open Function (update update_eq_self update_of_ne update_self)

/-- A property that every operation but an offer keeps. `hdr` is the header of the writer's set and
    `h` the writer's history; `N` holds of it before the writer is opened, and `F` when it ends. -/
structure WriterKept {η : Type} (P : SubgroupHeader → Writer → η → Prop → Prop) (N : η → Prop)
    (F : Writer → η → Prop) : Prop where
  new : ∀ {h} hdr inboxCap maxDrops live, N h →
    P hdr { hdr := hdr, inboxCap := inboxCap, maxDropsBeforeReset := maxDrops } h live
  numbered : ∀ {hdr w h live} (n : Nat), P hdr w h live → P hdr { w with seq := n } h live
  mono : ∀ {hdr w h} {live live' : Prop}, (live' → live) → P hdr w h live → P hdr w h live'
  /-- A close without a reset is the last contributor's. -/
  close : ∀ {hdr w h} {live : Prop} reset code, (reset = false → ¬ live) → P hdr w h live →
    P hdr (w.close reset code) h live
  dequeue : ∀ {hdr w h live fwd rest} fate, w.finished = false → w.lagExceeded = false →
    w.inbox = fwd :: rest → P hdr w h live → P hdr ({ w with inbox := rest }.handle fwd fate) h live
  finish : ∀ {hdr w h live}, w.finished = false →
    w.lagExceeded = true ∨ w.closeCalled = true ∧ w.inbox = [] → F w h → P hdr w h live →
    P hdr w.finish h live

section

variable {η : Type} {P : SubgroupHeader → Writer → η → Prop → Prop} {N : η → Prop}
  {F : Writer → η → Prop}

/-! ## The writers of a set -/

namespace WriterSet

/-- Each writer has the property with its history. -/
def Each (P : SubgroupHeader → Writer → η → Prop → Prop) (N : η → Prop) (s : WriterSet)
    (h : SubID → η) (live : Prop) : Prop :=
  ∀ sub, match s.writers sub with
    | some (some w) => P s.hdr w (h sub) live
    | _ => N (h sub)

def board (s : WriterSet) : SubgroupHeader × (SubID → Option (Option Writer)) := (s.hdr, s.writers)

theorem lower_board (s : WriterSet) (id : UInt64) : (s.lower id).board = s.board := by
  unfold lower
  split <;> rfl

theorem claimFirst_board (s : WriterSet) (id : UInt64) (claimed : Bool) :
    (s.claimFirst id claimed).1.board = s.board := by
  simp only [claimFirst, extendRun]
  split_ifs <;> exact s.lower_board id

theorem noteHeader_board (s : WriterSet) (id : UInt64) (heard : Nat) :
    (s.noteHeader id heard).1.board = s.board := by
  unfold noteHeader
  split <;> rfl

theorem leave_board (s : WriterSet) (reset : Bool) (code : StreamResetCode) (covers : Bool)
    (coverFrom : UInt64) : (s.leave reset code covers coverFrom).board = s.board := by
  unfold leave
  split_ifs <;> rfl

variable {s s' : WriterSet} {h h' : SubID → η} {live live' : Prop} {sub : SubID}

theorem Each.writer (hs : s.Each P N h live) {w : Writer} (hw : s.writers sub = some (some w)) :
    P s.hdr w (h sub) live := by
  have := hs sub
  rwa [hw] at this

theorem Each.of_board (hs : s.Each P N h live) (hb : s'.board = s.board) : s'.Each P N h live := by
  simp only [board, Prod.mk.injEq] at hb
  intro sub
  rw [hb.1, hb.2]
  exact hs sub

theorem Each.mapWriters {f : SubID → Writer → Writer} (hs : s.Each P N h live)
    (hf : ∀ sub w, s.writers sub = some (some w) → P s.hdr w (h sub) live →
      P s.hdr (f sub w) (h' sub) live')
    (hh : ∀ sub, (∀ w, s.writers sub ≠ some (some w)) → N (h sub) → N (h' sub)) :
    (s.mapWriters f).Each P N h' live' := by
  intro sub
  have hsub := hs sub
  simp only [WriterSet.mapWriters]
  rcases hw : s.writers sub with _ | _ | w
  · rw [hw] at hsub
    exact hh sub (by simp [hw]) hsub
  · rw [hw] at hsub
    exact hh sub (by simp [hw]) hsub
  · rw [hw] at hsub
    exact hf sub w hw hsub

theorem Each.mono (hP : WriterKept P N F) (hl : live' → live) (hs : s.Each P N h live) :
    s.Each P N h live' := by
  intro sub
  have := hs sub
  split at this
  · exact hP.mono hl this
  · exact this

theorem Each.put {o : Option Writer} (hs : s.Each P N h live)
    (ho : match o with | some w => P s.hdr w (h sub) live | none => N (h sub)) :
    Each P N { s with writers := update s.writers sub (some o) } h live := by
  intro sub'
  by_cases hsub : sub' = sub
  · subst hsub
    simp only [update_self]
    cases o <;> exact ho
  · simpa [update_of_ne hsub] using hs sub'

section

variable (hP : WriterKept P N F) (hs : s.Each P N h live) (cfg : Config)
  (established : SubID → Bool) (sub : SubID)
include hP hs

theorem Each.openWriterForSub : (s.openWriterForSub cfg established sub).Each P N h live := by
  unfold WriterSet.openWriterForSub
  split_ifs with hsome hest
  · exact hs
  all_goals
    have hnone : N (h sub) := by
      have := hs sub
      rwa [Option.not_isSome_iff_eq_none.mp hsome] at this
  · exact hs.put (hP.new _ _ _ live hnone)
  · exact hs.put hnone

theorem Each.joinWriter : (s.joinWriter cfg established sub).Each P N h live := by
  have ho := hs.openWriterForSub hP cfg established sub
  unfold WriterSet.joinWriter
  simp only
  split
  · next w hw => exact ho.put (o := some _) (hP.numbered _ (ho.writer hw))
  · exact ho

end

theorem Each.foldl {f : WriterSet → SubID → WriterSet}
    (hf : ∀ s sub, s.Each P N h live → (f s sub).Each P N h live) (subs : List SubID)
    (hs : s.Each P N h live) : (subs.foldl f s).Each P N h live := by
  induction subs generalizing s with
  | nil => exact hs
  | cons sub subs ih => exact ih (hf s sub hs)

theorem Each.openInitial (hP : WriterKept P N F) (hs : s.Each P N h live) (cfg : Config)
    (established : SubID → Bool) (subs : List SubID) (gen : Nat) (lowest : Option UInt64) :
    (s.openInitial cfg established subs gen lowest).Each P N h live := by
  refine Each.foldl (fun s sub hs => hs.openWriterForSub hP cfg established sub) subs ?_
  cases lowest with
  | none => exact hs
  | some lowest => exact hs.of_board (lower_board _ lowest)

theorem Each.closeWriters (hP : WriterKept P N F) (hs : s.Each P N h live) (hdead : ¬ live)
    (groupOutOfRange : SubID → Bool) : (s.closeWriters groupOutOfRange).Each P N h live := by
  obtain ⟨reset, code, hout⟩ : ∃ reset code, s.outcome = (reset, code) := ⟨_, _, rfl⟩
  unfold WriterSet.closeWriters
  rw [hout]
  refine hs.mapWriters (fun sub w _ hw => ?_) fun _ _ hnone => hnone
  split_ifs
  · exact hP.close _ _ (fun _ => hdead) hw
  · exact hP.close _ _ (fun _ => hdead) hw

end WriterSet

/-! ## Whole runs -/

namespace World

/-- Set `i` is the one the registry has for some Subgroup. -/
def Registered (W : World) (i : SetID) : Prop :=
  ∃ k refs, W.entry.subgroups.lookup k = some ⟨i, refs⟩

variable {W W' : World} {c : ContribID} {ct : Contributor} {h h' : SetID → SubID → η}

theorem registered_iff (hsub : W'.entry.subgroups = W.entry.subgroups) (i : SetID) :
    W'.Registered i ↔ W.Registered i := by
  rw [Registered, Registered, hsub]

/-- Every writer has the property. -/
structure EachWriter (P : SubgroupHeader → Writer → η → Prop → Prop) (N : η → Prop) (W : World)
    (h : SetID → SubID → η) : Prop where
  attached : Attached W
  each : ∀ i, (W.sets i).Each P N (h i) (W.Registered i)
  unmade : ∀ i, W.nextSet ≤ i → ∀ sub, N (h i sub)

namespace EachWriter

theorem init (cfg : WriterSet.Config) (cache : ObjectCache) (hN : ∀ i sub, N (h i sub)) :
    EachWriter P N (init cfg cache) h :=
  ⟨.init cfg cache, fun i sub => hN i sub, fun i _ sub => hN i sub⟩

section

variable (hP : WriterKept P N F) (hi : EachWriter P N W h)
include hP hi

theorem frame (hatt : Attached W')
    (hnext : W'.nextSet = W.nextSet) (hreg : ∀ i, W'.Registered i → W.Registered i) (i : SetID)
    (hset : (W'.sets i).Each P N (h' i) (W'.Registered i))
    (hmade : i < W.nextSet ∨ h' i = h i)
    (hother : ∀ j, j ≠ i → W'.sets j = W.sets j ∧ h' j = h j) : EachWriter P N W' h' := by
  refine ⟨hatt, fun j => ?_, fun j hle sub => ?_⟩
  · by_cases hj : j = i
    · subst hj
      exact hset
    · rw [(hother j hj).1, (hother j hj).2]
      exact (hi.each j).mono hP (hreg j)
  · rw [hnext] at hle
    by_cases hj : j = i
    · subst hj
      rw [hmade.resolve_left (Nat.not_lt.mpr hle)]
      exact hi.unmade j hle sub
    · rw [(hother j hj).2]
      exact hi.unmade j hle sub

theorem putSet (hatt : Attached W') {i : SetID}
    {s : WriterSet} (hs : s.Each P N (h i) (W.Registered i))
    (hsets : W'.sets = update W.sets i s)
    (hsub : W'.entry.subgroups = W.entry.subgroups) (hnext : W'.nextSet = W.nextSet) :
    EachWriter P N W' h := by
  have hreg := registered_iff hsub
  refine hi.frame hP hatt hnext (fun i => (hreg i).mp) i ?_ (.inr rfl) fun j hj => ?_
  · rw [hsets, update_self]
    exact hs.mono hP (hreg i).mp
  · rw [hsets, update_of_ne hj]
    exact ⟨rfl, rfl⟩

theorem makes (hatt : Attached W') {k₀ : SubgroupKey} {hdr : SubgroupHeader} (hW' : W' = { W with
      entry := { W.entry with subgroups := W.entry.subgroups.insert k₀ ⟨W.nextSet, 1⟩ }
      sets := update W.sets W.nextSet { hdr := hdr }
      nextSet := W.nextSet + 1 }.putContrib c ct) : EachWriter P N W' h := by
  subst hW'
  refine ⟨hatt, fun i => ?_, fun i hle => hi.unmade i (Nat.le_of_succ_le hle)⟩
  by_cases hnew : i = W.nextSet
  · subst hnew
    intro sub
    simp only [putContrib, update_self]
    exact hi.unmade _ (Nat.le_refl _) sub
  · simp only [putContrib, update_of_ne hnew]
    refine (hi.each i).mono hP ?_
    rintro ⟨k, refs, hk⟩
    by_cases hkk : k = k₀
    · subst hkk
      simp only [AList.lookup_insert, Option.some.injEq, SharedSubgroup.mk.injEq] at hk
      exact absurd hk.1.symm hnew
    · simp only [AList.lookup_insert_ne hkk] at hk
      exact ⟨k, refs, hk⟩

/-- The last contributor closes the writers when the registry has forgotten the set. -/
theorem leave (hc : W.contribs c = some ct)
    (hp : ct.phase = .ended) (oor : SubID → Bool) : EachWriter P N (W.leave c ct oor) h := by
  obtain ⟨refs, hl⟩ := hi.attached.live c _ _ (seat_of hc (by simp [hp]))
  have hreg : ∀ i, (W.leave c ct oor).Registered i → W.Registered i := by
    rintro i ⟨k, refs, hk⟩
    obtain ⟨refs', hk'⟩ := TrackEntry.releaseSubgroup_lookup hk
    exact ⟨k, refs', hk'⟩
  have hleft : ((W.sets ct.set).leave ct.inboundReset ct.inboundResetCode ct.covers
      ct.coverFrom).Each P N (h ct.set) ((W.leave c ct oor).Registered ct.set) :=
    ((hi.each ct.set).of_board (WriterSet.leave_board _ _ _ _ _)).mono hP (hreg ct.set)
  refine hi.frame hP (hi.attached.leave hc hp oor) rfl hreg ct.set ?_ (.inr rfl)
    fun j hj => ⟨update_of_ne hj _ _, rfl⟩
  simp only [World.leave, World.putSet, update_self]
  split_ifs with hlast
  · refine hleft.closeWriters hP ?_ oor
    -- the registry has forgotten the set, and no other Subgroup has it
    rintro ⟨k, refs', hk⟩
    obtain ⟨refs'', hk'⟩ := TrackEntry.releaseSubgroup_lookup hk
    cases hi.attached.inj _ _ _ _ hk' hl rfl
    exact absurd (hk.symm.trans (TrackEntry.releaseSubgroup_last hlast)) nofun
  · exact hleft

theorem quiet {a : Action} (hs : Step W a W') (ha : ∀ c now verdict, a ≠ .forward c now verdict)
    (hF : ∀ i sub w, a = .finish i sub → (W.sets i).writers sub = some (some w) → F w (h i sub)) :
    EachWriter P N W' h := by
  have hatt := hi.attached.step hs
  cases hs with
  | drops | forwards => exact absurd rfl (ha _ _ _)
  | joins hc hl =>
    refine hi.frame hP hatt rfl ?_ 0 ((hi.each 0).mono hP ?_) (.inr rfl) fun _ _ => ⟨rfl, rfl⟩
    · rintro i ⟨k, refs, hk⟩
      exact ⟨k, TrackEntry.lookup_insert_refs hl hk⟩
    · rintro ⟨k, refs, hk⟩
      exact ⟨k, TrackEntry.lookup_insert_refs hl hk⟩
  | makes hc hl => exact hi.makes hP hatt rfl
  | leave hc hp => exact hi.leave hP hc hp _
  | moves | claimAgedOut | claimFresh | register | others =>
    exact hi.putSet hP hatt (hi.each 0) (update_eq_self 0 W.sets).symm rfl rfl
  | @openInitial c ct established subs gen lowest hc hp =>
    exact hi.putSet hP hatt ((hi.each ct.set).openInitial hP W.cfg established subs gen lowest)
      rfl rfl rfl
  | @header c ct id obj established hc hp =>
    obtain ⟨_, _, subs, gen, noted, s, hjoin, -, -, heq⟩ := W.headerRead_eq c ct id obj established
    rw [heq] at hatt ⊢
    have hjoined : s.Each P N (h ct.set) (W.Registered ct.set) := by
      rw [hjoin]
      exact WriterSet.Each.foldl (fun s sub h => h.joinWriter hP W.cfg established sub) subs
        ((hi.each ct.set).of_board rfl)
    exact hi.putSet hP hatt (hjoined.of_board (s.noteHeader_board id s.opened)) rfl rfl rfl
  | @done c ct leaves hc hp =>
    have hdone : ((W.sets ct.set).doneReading ct.objectID).Each P N (h ct.set)
      (W.Registered ct.set) := (hi.each ct.set).of_board rfl
    exact hi.putSet hP hatt hdone rfl rfl rfl
  | @dequeue i sub fate w fwd rest hw hfin hlag hin =>
    have hold := (hi.each i).writer hw
    exact hi.putSet hP hatt ((hi.each i).put (o := some _) (hP.dequeue fate hfin hlag hin hold))
      rfl rfl rfl
  | @finish i sub w hw hfin hend =>
    have hold := (hi.each i).writer hw
    exact hi.putSet hP hatt
      ((hi.each i).put (o := some _) (hP.finish hfin hend (hF i sub w rfl hw) hold)) rfl rfl rfl

theorem offers (hatt : Attached W')
    (hc : W.contribs c = some ct) (hp : ct.phase ≠ .left) {s : WriterSet}
    (hs : W.Registered ct.set → s.Each P N (h' ct.set) (W.Registered ct.set))
    (hsets : W'.sets = update W.sets ct.set s)
    (hsub : W'.entry.subgroups = W.entry.subgroups) (hnext : W'.nextSet = W.nextSet)
    (hother : ∀ j, j ≠ ct.set → h' j = h j) : EachWriter P N W' h' := by
  obtain ⟨refs, hl⟩ := hi.attached.live c _ _ (seat_of hc hp)
  have hreg := registered_iff hsub
  refine hi.frame hP hatt hnext (fun i => (hreg i).mp) ct.set ?_
    (.inl (hi.attached.bound _ _ hl)) fun j hj => ⟨?_, hother j hj⟩
  · rw [hsets, update_self]
    exact (hs ⟨_, _, hl⟩).mono hP (hreg ct.set).mp
  · rw [hsets, update_of_ne hj]

end

end EachWriter
end World

end

end MoqGo.Relay
