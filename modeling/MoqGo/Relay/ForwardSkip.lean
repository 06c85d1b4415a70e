import MoqGo.Relay.Forward

/-!
# PUBLISH_SKIPPED (`pkg/relay/internal/registry/namespace.go`)

An offer that finds no stream credit queues a PUBLISH_SKIPPED instead, and `NoteSkipped` records
it **at the upstream epoch the offer had read**. The track is not to be offered again on that
SUBSCRIBE_TRACKS until an upstream changes the epoch. The epoch is read, the claim is taken and
the skip is recorded under three locks, with offers that have read older or newer epochs in
between.

What orders them is the claim. A call that has it has an epoch *above* the one recorded
(`Ahead`), since `ClaimForward` tested that, and nobody else records one while it is held.
-/

namespace MoqGo.Relay
namespace Forward

open Wire List

/-- The entry and the epoch of a call that may still open a PUBLISH or record a skip. -/
def Call.offer : Call → Option (EntryID × Nat)
  | .checking e _ epoch | .opening e epoch | .skipping e epoch | .noting e epoch =>
    some (e, epoch)
  | _ => none

variable {ns : TrackNamespace} {s s' : State} {c c' : Call} {e : EntryID} {epoch : Nat}

theorem Call.holds_of_offer (h : c.offer = some (e, epoch)) : c.holds e = true := by
  cases c <;> cases h <;> exact decide_eq_true rfl

/-! ## The holder of a claim -/

theorem Claimed.forwarding (h : Claimed s) (hc : c ∈ s.calls) (hholds : c.holds e = true) :
    (s.entries e).forwarding = true := by
  have hpos : 0 < s.calls.countP (Call.holds e) := countP_pos_iff.mpr ⟨c, hc, hholds⟩
  rw [h.holders e] at hpos
  cases hf : (s.entries e).forwarding with
  | true => rfl
  | false => simp [hf] at hpos

theorem Claimed.made (h : Claimed s) (hc : c ∈ s.calls) (hholds : c.holds e = true) :
    e < s.made := by
  by_contra hle
  have hunmade := (h.unmade e (Nat.le_of_not_lt hle)).2
  rw [h.forwarding hc hholds] at hunmade
  cases hunmade

theorem Claimed.one (h : Claimed s) (e : EntryID) : s.calls.countP (Call.holds e) ≤ 1 := by
  rw [h.holders e]
  exact Bool.toNat_le _

theorem Claimed.eq (h : Claimed s) (hc : c ∈ s.calls) (hc' : c' ∈ s.calls)
    (hholds : c.holds e = true) (hholds' : c'.holds e = true) : c = c' := by
  by_contra hne
  have hmem : c ∈ s.calls.erase c' := (mem_erase_of_ne hne).mpr hc
  have hrest : 0 < (s.calls.erase c').countP (Call.holds e) :=
    countP_pos_iff.mpr ⟨c, hmem, hholds⟩
  have hcount := Lib.countP_erase_add hc' (Call.holds e)
  have hone := h.one e
  rw [hholds', Bool.toNat_true] at hcount
  omega

/-! ## What a step does to the entries and the offers -/

/-- A step of the session, as an offer sees it. -/
structure Moves (s s' : State) : Prop where
  made : s.made ≤ s'.made
  closed : ∀ e, e < s.made → (s.entries e).fwdClosed = true → (s'.entries e).fwdClosed = true
  /-- A record is written by a call that goes on to release its claim. -/
  skipped : ∀ e, e < s.made → (s'.entries e).skipped = (s.entries e).skipped ∨
    ∃ epoch, .noting e epoch ∈ s.calls ∧ .releasing e ∈ s'.calls ∧
      (s'.entries e).skipped = some epoch
  /-- An offer is an earlier one, or has claimed its entry just now. -/
  offers : ∀ c ∈ s'.calls, ∀ e epoch, c.offer = some (e, epoch) →
    (∃ c' ∈ s.calls, c'.offer = some (e, epoch)) ∨ (s.entries e).free epoch = true

namespace Moves

theorem frame (hmade : s'.made = s.made)
    (hclosed : ∀ e, (s.entries e).fwdClosed = true → (s'.entries e).fwdClosed = true)
    (hskipped : ∀ e, (s'.entries e).skipped = (s.entries e).skipped)
    (hcalls : ∀ c ∈ s'.calls, c.offer ≠ none → ∃ c' ∈ s.calls, c'.offer = c.offer) :
    Moves s s' where
  made := hmade.ge
  closed e _ := hclosed e
  skipped e _ := .inl (hskipped e)
  offers c hc e epoch ho := by
    obtain ⟨c', hc', heq⟩ := hcalls c hc (by simp [ho])
    exact .inl ⟨c', hc', heq.trans ho⟩

theorem done (s : State) (c : Call) : Moves s (s.leave c) :=
  frame rfl (fun _ h => h) (fun _ => rfl) fun d hd _ => ⟨d, mem_of_mem_erase hd, rfl⟩

theorem pass (hc : c ∈ s.calls) (hsame : c'.offer = none ∨ c'.offer = c.offer) :
    Moves s ((s.leave c).enter c') := by
  refine frame rfl (fun _ h => h) (fun _ => rfl) fun d hd ho => ?_
  rcases mem_cons.mp hd with rfl | hd
  · exact ⟨c, hc, (hsame.resolve_left ho).symm⟩
  · exact ⟨d, mem_of_mem_erase hd, rfl⟩

theorem setEntry (h : Moves s s') (e : EntryID) (f : TracksEntry → TracksEntry)
    (hclosed : ∀ t, t.fwdClosed = true → (f t).fwdClosed = true)
    (hskipped : ∀ t, (f t).skipped = t.skipped) : Moves s (s'.setEntry e f) where
  made := h.made
  closed e' he' hc := by
    have hbefore := h.closed e' he' hc
    rcases eq_or_ne e' e with rfl | hne
    · simpa [State.setEntry] using hclosed _ hbefore
    · simpa [State.setEntry, hne] using hbefore
  skipped e' he' := by
    have hsame : ((s'.setEntry e f).entries e').skipped = (s'.entries e').skipped := by
      rcases eq_or_ne e' e with rfl | hne
      · simp [State.setEntry, hskipped]
      · simp [State.setEntry, hne]
    rw [hsame]
    exact h.skipped e' he'
  offers := h.offers

theorem enter (h : Moves s s') (hnone : c.offer = none) : Moves s (s'.enter c) where
  made := h.made
  closed := h.closed
  skipped e he := by
    rcases h.skipped e he with hsame | ⟨epoch, hnoting, hreleasing, hs⟩
    · exact .inl hsame
    · exact .inr ⟨epoch, hnoting, mem_cons_of_mem c hreleasing, hs⟩
  offers d hd := by
    rcases mem_cons.mp hd with rfl | hd
    · intro e epoch ho
      rw [hnone] at ho
      cases ho
    · exact h.offers d hd

theorem claim (hfree : (s.entries e).free epoch = true) (hoffer : c'.offer = some (e, epoch)) :
    Moves s (((s.leave c).setEntry e ({ · with forwarding := true })).enter c') := by
  have hset := (done s c).setEntry e ({ · with forwarding := true }) (fun _ h => h) fun _ => rfl
  refine ⟨hset.made, hset.closed, fun e' _ => .inl ?_, fun d hd => ?_⟩
  · rcases eq_or_ne e' e with rfl | hne
    · simp [State.setEntry, State.leave, State.enter]
    · simp [State.setEntry, State.leave, State.enter, hne]
  · rcases mem_cons.mp hd with rfl | hd
    · intro e' epoch' ho
      rw [hoffer, Option.some.injEq, Prod.mk.injEq] at ho
      obtain ⟨rfl, rfl⟩ := ho
      exact .inr hfree
    · exact hset.offers d hd

theorem note (hc : .noting e epoch ∈ s.calls) :
    Moves s (((s.leave (.noting e epoch)).setEntry e
      ({ · with skipped := some epoch })).enter (.releasing e)) := by
  have hpass : Moves s ((s.leave (.noting e epoch)).enter (.releasing e)) :=
    pass hc (.inl rfl)
  refine ⟨hpass.made, fun e' he' h => ?_, fun e' he' => ?_, hpass.offers⟩
  · rcases eq_or_ne e' e with rfl | hne
    · simpa [State.setEntry, State.leave, State.enter] using h
    · simpa [State.setEntry, State.leave, State.enter, hne] using h
  · rcases eq_or_ne e' e with rfl | hne
    · refine .inr ⟨epoch, hc, mem_cons_self, ?_⟩
      simp [State.setEntry, State.enter]
    · refine .inl ?_
      simp [State.setEntry, State.leave, State.enter, hne]

theorem advance (hc : c ∈ s.calls) (opened : Opened) :
    Moves s (advance ns (s.leave c) opened c) := by
  have hdone := done s c
  cases c with
  | claiming e te epoch =>
    simp only [Forward.advance]
    split
    · next hfree => exact claim hfree rfl
    · exact hdone
  | opening e epoch => cases opened <;> first | exact pass hc (.inl rfl) | exact pass hc (.inr rfl)
  | noting e epoch => exact note hc
  | releasing e =>
    exact hdone.setEntry e ({ · with forwarding := false }) (fun _ h => h) fun _ => rfl
  | registering e =>
    simp only [Forward.advance]
    split
    · have hpass : Moves s ((s.leave (.registering e)).enter (.registered e true)) :=
        pass hc (.inl rfl)
      exact ⟨hpass.made, hpass.closed, hpass.skipped, hpass.offers⟩
    · exact pass hc (.inl rfl)
  | registered e added =>
    have hset := hdone.setEntry e ({ · with forwarding := false }) (fun _ h => h) fun _ => rfl
    cases added with
    | true => exact hset
    | false => exact hset.enter rfl
  | updating e pfx =>
    exact hdone.setEntry e ({ · with nsPrefix := pfx }) (fun _ h => h) fun _ => rfl
  | start | holding | reading | checking | skipping | ending | unreserving =>
    -- The call goes on, with the offer it has if any, or ends.
    simp only [Forward.advance]
    repeat' split
    all_goals first
      | exact pass hc (.inl rfl)
      | exact pass hc (.inr rfl)
      | exact ⟨hdone.made, hdone.closed, hdone.skipped, hdone.offers⟩

theorem subscribeTracks (s : State) (prefixes : List TrackNamespace) (t : TracksEntry) :
    Moves s { s with
      prefixes := prefixes
      made := s.made + 1
      entries := Function.update s.entries s.made t } where
  made := Nat.le_succ _
  closed e he hc := by simpa [Nat.ne_of_lt he] using hc
  skipped e he := .inl (by simp [Nat.ne_of_lt he])
  offers c hc e epoch ho := .inl ⟨c, hc, ho⟩

theorem forwards {cs : List Call} (hcs : ∀ c ∈ cs, ∃ e te, c = .start e te)
    (hq : Quiet { s with calls := cs ++ s.calls } s') : Moves s s' := by
  refine frame hq.made (fun e h => hq.entries ▸ h) (fun e => by rw [hq.entries]) fun c hc ho => ?_
  rw [hq.calls] at hc
  rcases mem_append.mp hc with hc | hc
  · obtain ⟨e, te, rfl⟩ := hcs c hc
    exact absurd rfl ho
  · exact ⟨c, hc, rfl⟩

theorem step {a : Act} (hs : step ns s a = some s') : Moves s s' := by
  have hsame : Moves s s := frame rfl (fun _ h => h) (fun _ => rfl) fun c hc _ => ⟨c, hc, rfl⟩
  cases steps_of_step hs with
  | forwards cs hcs hq => exact forwards hcs hq
  | subscribeTracks => exact subscribeTracks s _ _
  | @unregister e =>
    have hset := hsame.setEntry e ({ · with fwdClosed := true }) (fun _ _ => rfl) fun _ => rfl
    exact hset.enter rfl
  | @updatePrefix e pfx =>
    have hset := hsame.setEntry e ({ · with reserved := pfx }) (fun _ h => h) fun _ => rfl
    have henter := hset.enter (c := .updating e pfx) rfl
    exact ⟨henter.made, henter.closed, henter.skipped, henter.offers⟩
  | go hc opened => exact advance hc opened
  | decline => exact done s _

end Moves

/-! ## The invariant -/

/-- The holder of a claim is ahead of every skip recorded. -/
structure Ahead (s : State) : Prop where
  claimed : Claimed s
  ahead : ∀ c ∈ s.calls, ∀ e epoch, c.offer = some (e, epoch) →
    ∀ skip ∈ (s.entries e).skipped, skip < epoch

theorem ahead_init : Ahead init := ⟨claimed_init, nofun⟩

theorem free_iff {t : TracksEntry} :
    t.free epoch = true ↔
      t.forwarding = false ∧ t.fwdClosed = false ∧ ∀ skip ∈ t.skipped, skip < epoch := by
  simp [TracksEntry.free, Option.all_eq_true, and_assoc]

variable {a : Act}

theorem Ahead.step (h : Ahead s) (hs : step ns s a = some s') : Ahead s' := by
  have hmoves := Moves.step hs
  have hclaimed := h.claimed.step hs
  refine ⟨hclaimed, fun c hc e epoch ho skip hskip => ?_⟩
  -- The offer was made on an entry that there is, and was ahead when it was made.
  obtain ⟨hmade, hahead⟩ : e < s.made ∧ ∀ skip ∈ (s.entries e).skipped, skip < epoch := by
    rcases hmoves.offers c hc e epoch ho with ⟨c', hc', ho'⟩ | hfree
    · exact ⟨h.claimed.made hc' (Call.holds_of_offer ho'), h.ahead c' hc' e epoch ho'⟩
    · obtain ⟨-, hopen, hall⟩ := free_iff.mp hfree
      refine ⟨?_, hall⟩
      by_contra hle
      have hunmade := (h.claimed.unmade e (Nat.le_of_not_lt hle)).1
      rw [hopen] at hunmade
      cases hunmade
  rcases hmoves.skipped e hmade with hsame | ⟨_, -, hreleasing, -⟩
  · rw [hsame] at hskip
    exact hahead skip hskip
  · -- Whoever has just recorded a skip has the claim, and no offer any more.
    have heq := hclaimed.eq hc hreleasing (Call.holds_of_offer ho) (decide_eq_true rfl)
    rw [heq] at ho
    cases ho

/-! ## After a skip, and after the entry is unregistered -/

/-- A skip was recorded for the entry, at `skip` or after. -/
def SkippedAt (e : EntryID) (skip : Nat) (s : State) : Prop :=
  e < s.made ∧ ∃ last ∈ (s.entries e).skipped, skip ≤ last

theorem SkippedAt.step {skip : Nat} (h : SkippedAt e skip s) (hahead : Ahead s)
    (hs : step ns s a = some s') : SkippedAt e skip s' := by
  obtain ⟨hmade, last, hlast, hle⟩ := h
  have hmoves := Moves.step hs
  refine ⟨hmade.trans_le hmoves.made, ?_⟩
  rcases hmoves.skipped e hmade with hsame | ⟨epoch, hnoting, -, hskipped⟩
  · exact ⟨last, hsame ▸ hlast, hle⟩
  · have hlt := hahead.ahead _ hnoting e epoch rfl last hlast
    exact ⟨epoch, hskipped, hle.trans hlt.le⟩

theorem skippedAt_noting {opened : Opened} {skip : Nat} (h : Claimed s)
    (hs : step ns s (.go (.noting e skip) opened) = some s') : SkippedAt e skip s' := by
  obtain ⟨hc, rfl⟩ := Lib.guard_iff.mp hs
  refine ⟨h.made hc (decide_eq_true rfl), skip, ?_, le_rfl⟩
  simp [advance, State.setEntry, State.enter]

def Unregistered (e : EntryID) (s : State) : Prop :=
  e < s.made ∧ (s.entries e).fwdClosed = true

theorem Unregistered.step (h : Unregistered e s) (hs : step ns s a = some s') :
    Unregistered e s' := by
  have hmoves := Moves.step hs
  exact ⟨h.1.trans_le hmoves.made, hmoves.closed e h.1 h.2⟩

theorem unregistered_unregister (h : Claimed s) (hs : step ns s (.unregister e) = some s') :
    Unregistered e s' := by
  simp only [step, Lib.unless_iff] at hs
  obtain ⟨hopen, rfl⟩ := hs
  refine ⟨?_, by simp [State.setEntry, State.enter]⟩
  by_contra hle
  exact hopen (by simp [(h.unmade e (Nat.le_of_not_lt hle)).1])

/-- **No PUBLISH after PUBLISH_SKIPPED.** At the end of any run, on any SUBSCRIBE_TRACKS entry: a
    forward that is at `OpenPublish` has read an epoch above every one a skip was recorded at
    before; at most one forward has the claim; and once the entry has been unregistered
    `ClaimForward` refuses every epoch. -/
theorem publish_above_skipped {acts : List Act} (hrun : Lib.run (step ns) init acts = some s)
    (e : EntryID) :
    (∀ before skip opened after, acts = before ++ .go (.noting e skip) opened :: after →
        ∀ epoch, .opening e epoch ∈ s.calls → skip < epoch) ∧
      s.calls.countP (Call.holds e) ≤ 1 ∧
      (∀ before after, acts = before ++ .unregister e :: after →
        ∀ epoch, (s.entries e).free epoch = false) := by
  have hahead : Ahead s := Lib.run_inv (fun _ _ _ h hs => h.step hs) ahead_init hrun
  refine ⟨?_, hahead.claimed.one e, ?_⟩
  · rintro before skip opened after rfl epoch hopening
    obtain ⟨-, last, hlast, hle⟩ : SkippedAt e skip s :=
      Lib.run_after hrun ahead_init (fun _ _ _ h hs => h.step hs)
        (fun _ _ h hs => skippedAt_noting h.claimed hs) (fun _ _ _ h hp hs => hp.step h hs)
    exact hle.trans_lt (hahead.ahead _ hopening e epoch rfl last hlast)
  · rintro before after rfl epoch
    obtain ⟨-, hclosed⟩ : Unregistered e s :=
      Lib.run_after hrun claimed_init (fun _ _ _ h hs => h.step hs)
        (fun _ _ h hs => unregistered_unregister h hs) (fun _ _ _ _ hp hs => hp.step hs)
    simp [TracksEntry.free, hclosed]

/-- Two offers read epoch 1 and the first to claim is out of credit, so that the second finds the
    skip. A new upstream lets a third one through, and the entry is unregistered. -/
def skipThenOpen : List Act :=
  [.subscribeTracks [], .addUpstream 1, .forward 0 0, .go (.start 0 0) .stream,
    .go (.holding 0 0) .stream, .forward 0 0, .go (.start 0 0) .stream,
    .go (.holding 0 0) .stream, .go (.reading 0 0) .stream, .go (.reading 0 0) .stream,
    .go (.claiming 0 0 1) .stream, .go (.checking 0 0 1) .stream,
    .go (.opening 0 1) .noStreamCredit, .go (.skipping 0 1) .stream,
    .go (.noting 0 1) .stream, .go (.releasing 0) .stream, .go (.claiming 0 0 1) .stream,
    .addUpstream 2, .forward 0 0, .go (.start 0 0) .stream, .go (.holding 0 0) .stream,
    .go (.reading 0 0) .stream, .go (.claiming 0 0 2) .stream, .go (.checking 0 0 2) .stream,
    .unregister 0]

theorem publish_above_skipped_offers :
    ∃ s, Lib.run (step []) init skipThenOpen = some s ∧
      s.calls = [.unreserving 0, .opening 0 2] ∧ 1 < 2 ∧ s.calls.countP (Call.holds 0) ≤ 1 ∧
      ∀ epoch, (s.entries 0).free epoch = false := by
  have hrun : Lib.run (step []) init skipThenOpen = some _ := rfl
  obtain ⟨hskip, hone, hclosed⟩ := publish_above_skipped hrun 0
  refine ⟨_, hrun, by decide, ?_, hone, hclosed (skipThenOpen.take 24) [] rfl⟩
  exact hskip (skipThenOpen.take 14) 1 .stream (skipThenOpen.drop 15) rfl 2 (by decide)

end Forward
end MoqGo.Relay
