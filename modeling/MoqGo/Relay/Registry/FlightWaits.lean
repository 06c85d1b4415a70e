import MoqGo.Relay.Registry.InFlight

/-!
# The waits of a track entry together (`pkg/relay/internal/registry/inflight.go`)

What one wait keeps (`FlightWait.WaitOk`) is stated over the number of active slots it is
registered on. This module is about those numbers: a slot that ends takes one off each of its
waits and posts them a result (`Sound.endInFlight`), a registration adds one (`registerLocked`),
and nothing else changes them. `drain` is taken apart into its results: between two of them the
wait has the rest yet to apply (`Draining`), and when the last copy of an Object is abandoned it
finds no slot that has it, so that it registers on each stream that reads the Object now
(`Draining.again`).

`waits_account` is what a FETCH relies on.
-/

namespace MoqGo.Relay

open Lib Message List AList
open Function (update update_of_ne update_self forall_update_iff)

namespace Flights

/-- The slot is active at `loc` and the wait is registered on it. -/
def registeredAt (s : Flights) (w : WaitID) (loc : Location) (f : SlotID) : Bool :=
  s.arriving loc f && (s.slots f).waiters.contains w

/-- How many active slots at `loc` the wait is registered on. -/
def registrations (s : Flights) (w : WaitID) (loc : Location) : Nat :=
  s.inflight.countP (s.registeredAt w loc)

/-- What a slot is, apart from the counts. -/
structure SlotOk (s : Flights) (f : SlotID) (slot : InFlight) : Prop where
  active : slot.active = true → f ∈ s.inflight
  inactive : slot.active = false → slot.waiters = []
  waiters : slot.waiters.Nodup
  /-- A wait knows where it is registered, and once stopped it is registered nowhere. -/
  listed : ∀ w ∈ slot.waiters, f ∈ (s.waits w).slots ∧ (s.waits w).stopped = false

/-- What the slots are, apart from the counts. -/
structure SlotsOk (s : Flights) : Prop where
  nodup : s.inflight.Nodup
  each : ∀ f, s.SlotOk f (s.slots f)
  slotsMade : ∀ f ∈ s.inflight, f < s.slotsMade
  waitsMade : ∀ w, s.waitsMade ≤ w → s.waits w = {}

/-- Each wait has yet to take the results `rs w`. -/
structure SoundWith (s : Flights) (rs : WaitID → List FlightResult) : Prop where
  slots : s.SlotsOk
  waits : ∀ w, (s.waits w).WaitOk (s.registrations w) (rs w)

/-- Between two steps. -/
structure Sound (s : Flights) : Prop where
  counted : s.SoundWith fun w => (s.waits w).results
  covers : ∀ w, (s.waits w).Covers

theorem sound_init : init.Sound where
  counted :=
    { slots := ⟨nodup_nil, fun _ => ⟨nofun, fun _ => rfl, nodup_nil, nofun⟩, nofun, fun _ _ => rfl⟩
      waits := fun _ => FlightWait.waitOk_new }
  covers w loc h := by simp [init] at h

variable {s s' : Flights} {w : WaitID} {f : SlotID} {w' : FlightWait} {rs : List FlightResult}
  {gaveUp : Bool} {r : FlightResult} {loc : Location} {obj : Option CachedObject}

theorem registrations_congr (hinflight : s'.inflight = s.inflight)
    (hslots : ∀ f loc, s'.registeredAt w loc f = s.registeredAt w loc f) :
    s'.registrations w = s.registrations w := by
  funext loc
  rw [registrations, registrations, hinflight]
  congr 1
  funext f
  exact hslots f loc

theorem setWait_self (s : Flights) (w : WaitID) (fw : FlightWait) : (s.setWait w fw).waits w = fw :=
  update_self _ _ _

theorem setWait_of_ne (s : Flights) {w' : WaitID} (hne : w' ≠ w) (fw : FlightWait) :
    (s.setWait w fw).waits w' = s.waits w' :=
  update_of_ne hne _ _

theorem SlotOk.of_waits {slot : InFlight} (h : s.SlotOk f slot)
    (hin : f ∈ s.inflight → f ∈ s'.inflight)
    (hw : ∀ w ∈ slot.waiters, (s.waits w).slots ⊆ (s'.waits w).slots ∧
      ((s.waits w).stopped = false → (s'.waits w).stopped = false)) : s'.SlotOk f slot :=
  ⟨fun ha => hin (h.active ha), h.inactive, h.waiters, fun w hmem =>
    ⟨(hw w hmem).1 (h.listed w hmem).1, (hw w hmem).2 (h.listed w hmem).2⟩⟩

theorem SlotsOk.setSlot (h : s.SlotsOk) {slot : InFlight} (hslot : s.SlotOk f slot) :
    SlotsOk { s with slots := update s.slots f slot } := by
  refine ⟨h.nodup, (forall_update_iff s.slots (SlotOk _)).mpr ⟨{ hslot with }, ?_⟩, h.slotsMade,
    h.waitsMade⟩
  exact fun g _ => { h.each g with }

theorem slotOk_idle {slot : InFlight} (hf : slot.active = true → f ∈ s.inflight)
    (hwaiters : slot.waiters = []) : s.SlotOk f slot :=
  ⟨hf, fun _ => hwaiters, hwaiters ▸ nodup_nil, hwaiters ▸ nofun⟩

theorem SlotsOk.setWait (h : s.SlotsOk) {fw : FlightWait} (hw : w < s.waitsMade)
    (hslots : (s.waits w).slots ⊆ fw.slots)
    (hstopped : (s.waits w).stopped = false → fw.stopped = false) : (s.setWait w fw).SlotsOk := by
  have hkeep : ∀ w', (s.waits w').slots ⊆ ((s.setWait w fw).waits w').slots ∧
      ((s.waits w').stopped = false → ((s.setWait w fw).waits w').stopped = false) :=
    (forall_update_iff s.waits fun w' fw => (s.waits w').slots ⊆ fw.slots ∧
      ((s.waits w').stopped = false → fw.stopped = false)).mpr
        ⟨⟨hslots, hstopped⟩, fun _ _ => ⟨List.Subset.refl _, id⟩⟩
  refine ⟨h.nodup, fun f => (h.each f).of_waits id fun w' _ => hkeep w', h.slotsMade, ?_⟩
  exact (forall_update_iff s.waits fun w' fw => s.waitsMade ≤ w' → fw = {}).mpr
    ⟨fun hge => absurd hw (Nat.not_lt.mpr hge), fun w' _ => h.waitsMade w'⟩

theorem SoundWith.update {rs rs' : WaitID → List FlightResult} (h : s.SoundWith rs)
    {fw : FlightWait} (hw : w < s.waitsMade) (hslots : (s.waits w).slots ⊆ fw.slots)
    (hstopped : (s.waits w).stopped = false → fw.stopped = false)
    (hrs : ∀ w', w' ≠ w → rs' w' = rs w') (hok : fw.WaitOk (s.registrations w) (rs' w)) :
    (s.setWait w fw).SoundWith rs' where
  slots := h.slots.setWait hw hslots hstopped
  waits := (forall_update_iff s.waits fun w' fw => fw.WaitOk (s.registrations w') (rs' w')).mpr
    ⟨hok, fun w' hne => hrs w' hne ▸ h.waits w'⟩

theorem arriving_registerLocked (s : Flights) (w : WaitID) (f : SlotID) :
    (s.registerLocked w f).arriving = s.arriving := by
  funext loc g
  by_cases hg : g = f
  · subst hg
    simp only [arriving, registerLocked, update_self]
  · simp only [arriving, registerLocked, update_of_ne hg]

theorem waiters_registerLocked (s : Flights) (w : WaitID) (f g : SlotID) :
    ((s.registerLocked w f).slots g).waiters =
      if g = f then (s.slots g).waiters ++ [w] else (s.slots g).waiters := by
  by_cases hg : g = f
  · subst hg
    simp only [registerLocked, update_self, if_true]
  · simp only [registerLocked, update_of_ne hg, if_neg hg]

/-- One more for the wait at the slot's Location; no other number changes. -/
theorem registrations_registerLocked (hs : s.SlotsOk) (hf : f ∈ s.inflight)
    (hactive : (s.slots f).active = true) (hout : w ∉ (s.slots f).waiters) (w' : WaitID) :
    (s.registerLocked w f).registrations w' =
      if w' = w then update (s.registrations w) (s.slots f).loc
        (s.registrations w (s.slots f).loc + 1)
      else s.registrations w' := by
  have hsame : ∀ loc g, g ≠ f → (s.registerLocked w f).registeredAt w' loc g =
      s.registeredAt w' loc g := by
    intro loc g hg
    rw [registeredAt, registeredAt, arriving_registerLocked, waiters_registerLocked, if_neg hg]
  split
  · next heq =>
    subst heq
    funext loc
    have hcount := countP_update hs.nodup hf (hsame loc)
    have hold : s.registeredAt w' loc f = false := by
      simp [registeredAt, hout]
    have hnew : (s.registerLocked w' f).registeredAt w' loc f = decide ((s.slots f).loc = loc) := by
      rw [registeredAt, arriving_registerLocked, waiters_registerLocked]
      simp [arriving, hactive]
    rw [hold, hnew] at hcount
    by_cases hloc : loc = (s.slots f).loc
    · subst hloc
      simpa [registrations, registerLocked] using hcount
    · rw [update_of_ne hloc]
      simpa [registrations, registerLocked, Ne.symm hloc] using hcount
  · next hne =>
    refine registrations_congr rfl fun g loc => ?_
    by_cases hg : g = f
    · subst hg
      rw [registeredAt, registeredAt, arriving_registerLocked, waiters_registerLocked, if_pos rfl]
      simp [hne]
    · exact hsame loc g hg

theorem SoundWith.not_stopped {rs : WaitID → List FlightResult} (h : s.SoundWith rs)
    (hended : (s.waits w).ended = false) : (s.waits w).stopped = false := by
  cases hst : (s.waits w).stopped with
  | false => rfl
  | true => cases hended.symm.trans ((h.waits w).stopped hst)

theorem SoundWith.registerLocked {rs : WaitID → List FlightResult} (h : s.SoundWith rs)
    (hw : w < s.waitsMade) (hf : f ∈ s.inflight) (hactive : (s.slots f).active = true)
    (hout : w ∉ (s.slots f).waiters) (hres : ¬ (s.waits w).Resolved (s.slots f).loc)
    (hended : (s.waits w).ended = false) : (s.registerLocked w f).SoundWith rs := by
  have hstopped := h.not_stopped hended
  have hslots : (s.setWait w ((s.waits w).register f (s.slots f).loc)).SlotsOk :=
    h.slots.setWait hw (subset_append_left _ _) id
  have hself := s.setWait_self w ((s.waits w).register f (s.slots f).loc)
  refine ⟨hslots.setSlot ⟨fun _ => hf, fun hna => ?_, ?_, fun w' hw' => ?_⟩, fun w' => ?_⟩
  · cases hactive.symm.trans hna
  · exact (hslots.each f).waiters.append (nodup_singleton _)
      (by simpa [Flights.setWait] using hout)
  · rcases mem_append.mp hw' with hw' | hw'
    · exact (hslots.each f).listed w' hw'
    · rw [mem_singleton.mp hw', hself]
      exact ⟨mem_append_right _ mem_cons_self, hstopped⟩
  · rw [registrations_registerLocked h.slots hf hactive hout]
    by_cases heq : w' = w
    · subst heq
      rw [if_pos rfl, show (s.registerLocked w' f).waits w' = _ from hself]
      exact (h.waits w').register f hres hended
    · rw [if_neg heq, show (s.registerLocked w f).waits w' = _ from setWait_of_ne s heq _]
      exact h.waits w'

/-- What registering changes of the wait itself. -/
structure Grown (w w' : FlightWait) : Prop where
  done : w'.done = w.done
  forgotten : w'.forgotten = w.forgotten
  results : w'.results = w.results
  phase : w'.phase = w.phase
  stopped : w'.stopped = w.stopped
  idle : w'.idle = w.idle
  pending : ∀ loc ∈ w.pending, loc ∈ w'.pending
  covered : ∀ loc ∈ w'.covered, loc ∈ w.covered ∨ loc ∈ w'.pending

theorem Grown.refl (w : FlightWait) : Grown w w :=
  ⟨rfl, rfl, rfl, rfl, rfl, rfl, fun _ h => h, fun _ h => .inl h⟩

theorem Grown.trans {w w'' : FlightWait} (h : Grown w w') (h' : Grown w' w'') : Grown w w'' where
  done := h'.done.trans h.done
  forgotten := h'.forgotten.trans h.forgotten
  results := h'.results.trans h.results
  phase := h'.phase.trans h.phase
  stopped := h'.stopped.trans h.stopped
  idle := h'.idle.trans h.idle
  pending loc hl := h'.pending loc (h.pending loc hl)
  covered loc hl := by
    rcases h'.covered loc hl with hl | hl
    · rcases h.covered loc hl with hl | hl
      · exact .inl hl
      · exact .inr (h'.pending loc hl)
    · exact .inr hl

theorem Grown.register (w : FlightWait) (f : SlotID) (loc : Location) :
    Grown w (w.register f loc) := by
  refine ⟨rfl, rfl, rfl, rfl, rfl, rfl, fun l hl => (mem_insert _).mpr (.inr hl),
    fun l hl => ?_⟩
  rcases mem_cons.mp hl with rfl | hl
  · exact .inr ((mem_insert _).mpr (.inl rfl))
  · exact .inl hl

theorem Grown.resolved {w : FlightWait} (h : Grown w w') (loc : Location) :
    w'.Resolved loc ↔ w.Resolved loc := by
  simp only [FlightWait.Resolved, FlightWait.handed, h.done, h.forgotten]

theorem Grown.ended {w : FlightWait} (h : Grown w w') : w'.ended = w.ended := by
  simp only [FlightWait.ended, h.phase]

/-- By induction on the slots: each is registered on once, and what the rest needs is kept. -/
theorem SoundWith.registerAll {rs : WaitID → List FlightResult} {fs : List SlotID} :
    ∀ {s : Flights}, s.SoundWith rs → w < s.waitsMade → (s.waits w).ended = false → fs.Nodup →
      (∀ f ∈ fs, f ∈ s.inflight ∧ (s.slots f).active = true ∧ w ∉ (s.slots f).waiters ∧
        ¬ (s.waits w).Resolved (s.slots f).loc) →
      (s.registerAll w fs).SoundWith rs ∧ Grown (s.waits w) ((s.registerAll w fs).waits w) ∧
        (∀ w', w' ≠ w → (s.registerAll w fs).waits w' = s.waits w') ∧
        (s.registerAll w fs).inflight = s.inflight ∧
        (s.registerAll w fs).arriving = s.arriving ∧
        (s.registerAll w fs).waitsMade = s.waitsMade ∧
        ∀ f ∈ fs, (s.slots f).loc ∈ ((s.registerAll w fs).waits w).pending := by
  induction fs with
  | nil =>
    intro s h _ _ _ _
    exact ⟨h, Grown.refl _, fun _ _ => rfl, rfl, rfl, rfl, fun _ hf => by cases hf⟩
  | cons f fs ih =>
    intro s h hw hended hnodup hfs
    obtain ⟨hnot, hnodup⟩ := nodup_cons.mp hnodup
    obtain ⟨hin, hactive, hout, hres⟩ := hfs f mem_cons_self
    have hself : (s.registerLocked w f).waits w = (s.waits w).register f (s.slots f).loc :=
      update_self _ _ _
    have hgrown : Grown (s.waits w) ((s.registerLocked w f).waits w) :=
      hself ▸ Grown.register _ f _
    have hslots : ∀ g ∈ fs, (s.registerLocked w f).slots g = s.slots g := fun g hg =>
      update_of_ne (fun heq : g = f => hnot (heq ▸ hg)) _ _
    obtain ⟨hsound, hgrow, hothers, hinflight, harriving, hmade, hpending⟩ :=
      ih (h.registerLocked hw hin hactive hout hres hended) hw (hgrown.ended.trans hended) hnodup
        fun g hg => by
          obtain ⟨hin, hactive, hout, hres⟩ := hfs g (mem_cons_of_mem _ hg)
          rw [hslots g hg]
          exact ⟨hin, hactive, hout, fun hr => hres ((hgrown.resolved _).mp hr)⟩
    refine ⟨hsound, hgrown.trans hgrow, fun w' hne => ?_, hinflight,
      harriving.trans (arriving_registerLocked s w f), hmade, fun g hg => ?_⟩
    · exact (hothers w' hne).trans (update_of_ne hne _ _)
    · rcases mem_cons.mp hg with rfl | hg
      · apply hgrow.pending
        rw [hself]
        exact (mem_insert _).mpr (.inl rfl)
      · have hp := hpending g hg
        rw [hslots g hg] at hp
        exact hp

/-- In `drain`: the results `rs` of `w` are yet to be applied, those of the other waits are where
    they were. A Location read by no stream is in `idle` already. -/
structure Draining (s : Flights) (w : WaitID) (gaveUp : Bool) (rs : List FlightResult) : Prop where
  sound : s.SoundWith fun w' => if w' = w then rs else (s.waits w').results
  covers : ∀ w', (s.waits w').Covers
  made : w < s.waitsMade
  phase : (s.waits w).phase = .draining gaveUp
  results : (s.waits w).results = []
  idle : ∀ r ∈ rs, s.inflight.any (s.arriving r.loc) = false → r.loc ∈ (s.waits w).idle

theorem Draining.ended (h : s.Draining w gaveUp rs) : (s.waits w).ended = false := by
  simp only [FlightWait.ended, h.phase]

theorem Draining.stopped (h : s.Draining w gaveUp rs) : (s.waits w).stopped = false :=
  h.sound.not_stopped h.ended

theorem Draining.waitOk (h : s.Draining w gaveUp rs) :
    (s.waits w).WaitOk (s.registrations w) rs := by
  have hok := h.sound.waits w
  rw [if_pos rfl] at hok
  exact hok

section

variable (h : s.Draining w gaveUp (r :: rs)) (fw : FlightWait)
  (hslots : fw.slots = (s.waits w).slots) (hstopped : fw.stopped = (s.waits w).stopped)
include h hslots hstopped

theorem Draining.updateSound
    (hok : fw.WaitOk (s.registrations w) rs) : (s.setWait w fw).SoundWith fun w' =>
      if w' = w then rs else ((s.setWait w fw).waits w').results := by
  refine h.sound.update h.made (hslots ▸ List.Subset.refl _) (fun hs => hstopped.trans hs)
    (fun w' hne => ?_) ?_
  · rw [if_neg hne, if_neg hne, setWait_of_ne s hne]
  · rw [if_pos rfl]
    exact hok

theorem Draining.update
    (hphase : fw.phase = (s.waits w).phase) (hresults : fw.results = (s.waits w).results)
    (hidle : fw.idle = (s.waits w).idle) (hok : fw.WaitOk (s.registrations w) rs)
    (hcovers : fw.Covers) : (s.setWait w fw).Draining w gaveUp rs where
  sound := h.updateSound fw hslots hstopped hok
  covers := (forall_update_iff s.waits fun _ fw => fw.Covers).mpr ⟨hcovers, fun w' _ => h.covers w'⟩
  made := h.made
  phase := by
    rw [setWait_self]
    exact hphase.trans h.phase
  results := by
    rw [setWait_self]
    exact hresults.trans h.results
  idle r' hr' hnone := by
    rw [setWait_self, hidle]
    exact h.idle r' (mem_cons_of_mem _ hr') hnone

end

/-- The last copy the wait knew of is abandoned. It is then registered on no slot at `loc`, so it
    may register on all that read it; where none does, `loc` is idle. -/
theorem Draining.again (h : s.Draining w gaveUp (⟨loc, none⟩ :: rs))
    (hin : loc ∈ (s.waits w).pending) (hgone : loc ∉ ((s.waits w).abandon loc).pending) :
    ((s.setWait w ((s.waits w).abandon loc)).registerAll w (s.begun w loc)).Draining
      w gaveUp rs := by
  have hok := h.waitOk.abandon h.phase h.stopped hin
  have hsound := h.updateSound ((s.waits w).abandon loc) rfl rfl hok
  have hself := s.setWait_self w ((s.waits w).abandon loc)
  have hfresh : ¬ ((s.waits w).abandon loc).Resolved loc := h.waitOk.unresolved h.stopped hin
  -- no slot at `loc` has the wait: it would be counted
  have hnobody : ∀ f ∈ s.inflight, s.arriving loc f = true → w ∉ (s.slots f).waiters := by
    intro f hf harr hw
    apply hgone
    rw [(hok.pending h.stopped).mem_iff, FlightWait.due, if_neg hfresh]
    have hpos : 0 < s.registrations w loc :=
      countP_pos_iff.mpr ⟨f, hf, by simp [registeredAt, harr, hw]⟩
    omega
  have hended : ((s.setWait w ((s.waits w).abandon loc)).waits w).ended = false := by
    rw [hself]
    exact h.ended
  obtain ⟨hsound', hgrown, hothers, hinflight, harriving, hmade, hpending⟩ :=
    @SoundWith.registerAll w _ (s.begun w loc) _ hsound h.made hended
      (h.sound.slots.nodup.filter _) fun f hf => by
      rw [begun, mem_filter, Bool.and_eq_true, Bool.not_eq_true'] at hf
      obtain ⟨hin', harr, hout⟩ := hf
      rw [← Bool.not_eq_true, contains_iff_mem] at hout
      simp only [arriving, Bool.and_eq_true, decide_eq_true_eq] at harr
      refine ⟨hin', harr.1, hout, ?_⟩
      rw [hself, show ((s.setWait w ((s.waits w).abandon loc)).slots f).loc = loc from harr.2]
      exact hfresh
  rw [hself] at hgrown
  refine
    { sound := ?_
      covers := fun w' => ?_
      made := hmade ▸ h.made
      phase := hgrown.phase.trans h.phase
      results := hgrown.results.trans h.results
      idle := fun r hr hnone => ?_ }
  · have hfun : (fun w' => if w' = w then rs else
        ((s.setWait w ((s.waits w).abandon loc)).waits w').results) = fun w' =>
        if w' = w then rs else (((s.setWait w ((s.waits w).abandon loc)).registerAll w
          (s.begun w loc)).waits w').results := by
      funext w'
      split
      · rfl
      · next hne => rw [hothers w' hne]
    rw [← hfun]
    exact hsound'
  · by_cases heq : w' = w
    · subst heq
      intro l hl
      rw [hgrown.resolved, hgrown.idle]
      rcases hgrown.covered l hl with hl | hl
      · rcases h.covers w' l hl with hr | hr | hr
        · exact .inl hr
        · exact .inr (.inl hr)
        · by_cases hloc : l = loc
          · subst hloc
            cases hany : s.inflight.any (s.arriving l) with
            | false => exact .inr (.inl (h.idle _ mem_cons_self hany))
            | true =>
              obtain ⟨f, hf, harr⟩ := any_eq_true.mp hany
              have hp := hpending f (mem_filter.mpr
                ⟨hf, by simpa [harr] using hnobody f hf harr⟩)
              have hfl : ((s.setWait w' ((s.waits w').abandon l)).slots f).loc = l := by
                simp only [arriving, Bool.and_eq_true, decide_eq_true_eq] at harr
                exact harr.2
              rw [hfl] at hp
              exact .inr (.inr hp)
          · exact .inr (.inr (hgrown.pending l (FlightWait.mem_abandon_of_ne hloc hr)))
      · exact .inr (.inr hl)
    · rw [hothers w' heq, setWait_of_ne s heq]
      exact h.covers w'
  · rw [hinflight, harriving] at hnone
    rw [hgrown.idle]
    exact h.idle r (mem_cons_of_mem _ hr) hnone

/-- A result for a Location no longer pending is skipped: another copy came first. -/
theorem Draining.drainOne (h : s.Draining w gaveUp (r :: rs)) :
    (s.drainOne w r).Draining w gaveUp rs := by
  simp only [Flights.drainOne]
  split
  · next hnone =>
    have hout : r.loc ∉ (s.waits w).pending := lookup_eq_none.mp hnone
    refine
      { h with
        sound := ⟨h.sound.slots, fun w' => ?_⟩
        idle := fun r' hr' => h.idle r' (mem_cons_of_mem _ hr') }
    have hok := h.sound.waits w'
    by_cases heq : w' = w
    · subst heq
      rw [if_pos rfl] at hok ⊢
      exact hok.skip h.phase h.stopped hout
    · rw [if_neg heq] at hok ⊢
      exact hok
  · next hsome =>
    have hin : r.loc ∈ (s.waits w).pending := lookup_isSome.mp (by rw [hsome]; rfl)
    obtain ⟨loc, obj⟩ := r
    cases obj with
    | some obj =>
      refine h.update ((s.waits w).handOver loc obj) rfl rfl rfl rfl rfl
        (h.waitOk.handOver h.phase h.stopped hin) fun l hl => ?_
      rw [FlightWait.resolved_handOver (h.waitOk.objs _ mem_cons_self obj rfl)]
      exact (h.covers w).forget loc l hl
    | none =>
      have hok := h.waitOk.abandon h.phase h.stopped hin
      dsimp only
      split
      · next hstill =>
        refine h.update ((s.waits w).abandon loc) rfl rfl rfl rfl rfl hok fun l hl => ?_
        rcases h.covers w l hl with hr | hr | hr
        · exact .inl hr
        · exact .inr (.inl hr)
        · by_cases hloc : l = loc
          · exact .inr (.inr (hloc ▸ hstill))
          · exact .inr (.inr (FlightWait.mem_abandon_of_ne hloc hr))
      · next hgone => exact h.again hin hgone

theorem Draining.foldl : ∀ {s : Flights}, s.Draining w gaveUp rs →
      (rs.foldl (fun s r => s.drainOne w r) s).Draining w gaveUp [] := by
  induction rs with
  | nil => exact fun h => h
  | cons r rs ih => exact fun h => ih h.drainOne

theorem Sound.made (h : s.Sound) (hw : (s.waits w).phase ≠ .registered) : w < s.waitsMade := by
  by_contra hge
  rw [h.counted.slots.waitsMade w (Nat.not_lt.mp hge)] at hw
  exact hw rfl

theorem Sound.drain (h : s.Sound) (hphase : (s.waits w).phase = .draining gaveUp) :
    (s.drain w).Draining w gaveUp [] := by
  have hmade : w < s.waitsMade := h.made (by simp [hphase])
  have hok := h.counted.waits w
  refine Draining.foldl ?_
  refine
    { sound := h.counted.update hmade (List.Subset.refl _) (fun hs => hs) (fun w' hne => ?_) ?_
      covers := (forall_update_iff s.waits fun _ fw => fw.Covers).mpr ⟨?_, fun w' _ => h.covers w'⟩
      made := hmade
      phase := by
        rw [setWait_self]
        exact hphase
      results := by rw [setWait_self]
      idle := fun r hr hnone => ?_ }
  · rw [if_neg hne, setWait_of_ne s hne]
  · rw [if_pos rfl]
    exact { hok with }
  · intro l hl
    rcases h.covers w l hl with hr | hr | hr
    · exact .inl hr
    · exact .inr (.inl (mem_append_right _ hr))
    · exact .inr (.inr hr)
  · rw [setWait_self]
    refine mem_append_left _ (mem_filter.mpr ⟨mem_map_of_mem hr, ?_⟩)
    rw [show s.inflight.any (s.arriving r.loc) = false from hnone]
    rfl

/-! ## The streams' steps -/

theorem postAll_apply {ws : List WaitID} :
    ∀ {waits : WaitID → FlightWait}, ws.Nodup → ∀ w, postAll waits loc obj ws w =
      if w ∈ ws then (waits w).post loc obj else waits w := by
  induction ws with
  | nil => exact fun _ w => (if_neg not_mem_nil).symm
  | cons x ws ih =>
    intro waits hnodup w
    obtain ⟨hx, hnodup⟩ := nodup_cons.mp hnodup
    rw [postAll, ih hnodup w]
    by_cases hw : w = x
    · subst hw
      rw [if_neg hx, if_pos mem_cons_self, update_self]
    · simp only [update_of_ne hw, mem_cons, hw, false_or]

/-- A step that leaves the waits and their numbers alone. -/
theorem Sound.quiet (h : s.Sound) (hslots : s'.SlotsOk)
    (hregs : ∀ w, s'.registrations w = s.registrations w) (hwaits : s'.waits = s.waits) :
    s'.Sound where
  counted :=
    { slots := hslots
      waits := fun w => by
        rw [hregs, hwaits]
        exact h.counted.waits w }
  covers w := by
    rw [hwaits]
    exact h.covers w

theorem Sound.newInFlight (h : s.Sound) : s.newInFlight.Sound := by
  have hs := h.counted.slots
  have hout : s.slotsMade ∉ s.inflight := fun hin => Nat.lt_irrefl _ (hs.slotsMade _ hin)
  have hmore : SlotsOk { s with
      inflight := s.slotsMade :: s.inflight, slotsMade := s.slotsMade + 1 } := by
    refine ⟨nodup_cons.mpr ⟨hout, hs.nodup⟩, fun f => (hs.each f).of_waits (mem_cons_of_mem _)
      fun _ _ => ⟨List.Subset.refl _, id⟩, fun f hf => ?_, hs.waitsMade⟩
    rcases mem_cons.mp hf with rfl | hf
    · exact Nat.lt_succ_self _
    · exact Nat.lt_succ_of_lt (hs.slotsMade f hf)
  refine h.quiet (hmore.setSlot (slotOk_idle nofun rfl)) (fun w => ?_) rfl
  funext loc
  have hself : s.newInFlight.registeredAt w loc s.slotsMade = false := by
    simp [registeredAt, Flights.newInFlight]
  have hrest : s.inflight.countP (s.newInFlight.registeredAt w loc) =
      s.inflight.countP (s.registeredAt w loc) := by
    apply countP_congr
    intro f hf
    have hne : f ≠ s.slotsMade := fun heq => hout (heq ▸ hf)
    simp only [registeredAt, arriving, Flights.newInFlight, update_of_ne hne]
  show (s.slotsMade :: s.inflight).countP (s.newInFlight.registeredAt w loc) = _
  rw [countP_cons, hself, hrest]
  rfl

theorem Sound.headerRead (h : s.Sound) (hf : f ∈ s.inflight)
    (hinactive : (s.slots f).active = false) (loc : Location) : (s.headerRead f loc).Sound := by
  have hs := h.counted.slots
  have hwaiters := (hs.each f).inactive hinactive
  refine h.quiet (hs.setSlot (slotOk_idle (fun _ => hf) hwaiters))
    (fun w => registrations_congr rfl fun g l => ?_) rfl
  by_cases heq : g = f
  · subst heq
    simp [registeredAt, Flights.headerRead, hwaiters]
  · simp only [registeredAt, arriving, Flights.headerRead, update_of_ne heq]

theorem endInFlight_of_active (hactive : (s.slots f).active = true) (obj : Option CachedObject) :
    s.endInFlight f obj =
      { s with
        waits := postAll s.waits (s.slots f).loc obj (s.slots f).waiters
        slots := update s.slots f { s.slots f with active := false, waiters := [] } } :=
  if_pos hactive

/-- One less, at the slot's Location, for each of its waits: the result posted makes up for it. -/
theorem registrations_endInFlight (hs : s.SlotsOk) (hf : f ∈ s.inflight)
    (hactive : (s.slots f).active = true) (obj : Option CachedObject) (w : WaitID) :
    (s.endInFlight f obj).registrations w = if w ∈ (s.slots f).waiters
      then update (s.registrations w) (s.slots f).loc
        (s.registrations w (s.slots f).loc - 1)
      else s.registrations w := by
  have heq := endInFlight_of_active hactive obj
  have hsame : ∀ loc g, g ≠ f →
      (s.endInFlight f obj).registeredAt w loc g = s.registeredAt w loc g := by
    intro loc g hg
    simp only [heq, registeredAt, arriving, update_of_ne hg]
  have hnew : ∀ loc, (s.endInFlight f obj).registeredAt w loc f = false := by
    simp [heq, registeredAt]
  have hcount : ∀ loc, (s.endInFlight f obj).registrations w loc +
      (s.registeredAt w loc f).toNat = s.registrations w loc := by
    intro loc
    have hc := countP_update hs.nodup hf (hsame loc)
    rw [hnew, Bool.toNat_false, Nat.add_zero] at hc
    rw [registrations, registrations, show (s.endInFlight f obj).inflight = s.inflight by rw [heq]]
    exact hc
  funext loc
  have hc := hcount loc
  split
  · next hw =>
    by_cases hloc : loc = (s.slots f).loc
    · have hold : s.registeredAt w loc f = true := by
        simp [registeredAt, arriving, hactive, hloc, hw]
      rw [hold, Bool.toNat_true] at hc
      rw [hloc] at hc ⊢
      rw [update_self]
      omega
    · have hold : s.registeredAt w loc f = false := by
        simp [registeredAt, arriving, Ne.symm hloc]
      rw [hold] at hc
      rw [update_of_ne hloc]
      exact hc
  · next hw =>
    have hold : s.registeredAt w loc f = false := by
      simp [registeredAt, hw]
    rw [hold] at hc
    exact hc

theorem Sound.endInFlight (h : s.Sound) (hf : f ∈ s.inflight)
    (hobj : ∀ o ∈ obj, o.loc = (s.slots f).loc) : (s.endInFlight f obj).Sound := by
  by_cases hactive : (s.slots f).active = true
  · have hs := h.counted.slots
    have heq := endInFlight_of_active hactive obj
    have hpost : ∀ w, (s.endInFlight f obj).waits w =
        if w ∈ (s.slots f).waiters then (s.waits w).post (s.slots f).loc obj else s.waits w := by
      intro w
      rw [heq]
      exact postAll_apply (hs.each f).waiters w
    have hposted : SlotsOk { s with
        waits := postAll s.waits (s.slots f).loc obj (s.slots f).waiters } := by
      refine ⟨hs.nodup, fun g => (hs.each g).of_waits id fun w _ => ?_, hs.slotsMade,
        fun w hw => ?_⟩
      · dsimp only
        rw [postAll_apply (hs.each f).waiters]
        split <;> exact ⟨List.Subset.refl _, id⟩
      · have hout : w ∉ (s.slots f).waiters := by
          intro hin
          have hl := ((hs.each f).listed w hin).1
          rw [hs.waitsMade w hw] at hl
          cases hl
        exact (postAll_apply (hs.each f).waiters w).trans ((if_neg hout).trans (hs.waitsMade w hw))
    have hslots : (s.endInFlight f obj).SlotsOk := heq ▸ hposted.setSlot (slotOk_idle nofun rfl)
    refine ⟨⟨hslots, fun w => ?_⟩, fun w => ?_⟩
    · rw [registrations_endInFlight hs hf hactive, hpost]
      split
      · next hw =>
        have hpos : 0 < s.registrations w (s.slots f).loc :=
          countP_pos_iff.mpr ⟨f, hf, by simp [registeredAt, arriving, hactive, hw]⟩
        exact (h.counted.waits w).post hpos ((hs.each f).listed w hw).2 hobj
      · exact h.counted.waits w
    · rw [hpost]
      split
      · exact h.covers w
      · exact h.covers w
  · rw [Flights.endInFlight, if_neg hactive]
    exact h

theorem Sound.releaseInFlight (h : s.Sound) (hf : f ∈ s.inflight) :
    (s.releaseInFlight f).Sound := by
  have h' : (s.endInFlight f none).Sound := h.endInFlight hf (by simp)
  have hs := h'.counted.slots
  have hinactive : ((s.endInFlight f none).slots f).active = false := by
    unfold Flights.endInFlight
    split
    · simp
    · next hna => simpa using hna
  refine h'.quiet ⟨hs.nodup.erase f, fun g => { hs.each g with active := fun hg => ?_ },
    fun g hg => hs.slotsMade g (mem_of_mem_erase hg), hs.waitsMade⟩ (fun w => ?_) rfl
  · have hne : g ≠ f := by
      rintro rfl
      cases hinactive.symm.trans hg
    exact (mem_erase_of_ne hne).mpr ((hs.each g).active hg)
  · funext loc
    have hnot : (s.endInFlight f none).registeredAt w loc f = false := by
      simp [registeredAt, (hs.each f).inactive hinactive]
    have hin : f ∈ (s.endInFlight f none).inflight := by
      unfold Flights.endInFlight
      split <;> exact hf
    have hperm := (perm_cons_erase hin).countP_eq
      ((s.endInFlight f none).registeredAt w loc)
    rw [countP_cons, hnot] at hperm
    exact hperm.symm

/-! ## The waits' steps -/

theorem Sound.newWait (h : s.Sound) {fs : List SlotID} (hnodup : fs.Nodup)
    (hfs : ∀ f ∈ fs, f ∈ s.inflight ∧ (s.slots f).active = true) :
    (Flights.registerAll { s with waitsMade := s.waitsMade + 1 } s.waitsMade fs).Sound := by
  have hs := h.counted.slots
  have hnew : s.waits s.waitsMade = {} := hs.waitsMade _ (Nat.le_refl _)
  have hcounted : SoundWith { s with waitsMade := s.waitsMade + 1 }
      fun w => (s.waits w).results :=
    { slots := ⟨hs.nodup, fun f => { hs.each f with }, hs.slotsMade,
        fun w hw => hs.waitsMade w (Nat.le_of_succ_le hw)⟩
      waits := h.counted.waits }
  have hended : (s.waits s.waitsMade).ended = false := by
    rw [hnew]
    rfl
  obtain ⟨hsound, hgrown, hothers, -⟩ :=
    hcounted.registerAll (Nat.lt_succ_self s.waitsMade) hended hnodup fun f hf => by
      refine ⟨(hfs f hf).1, (hfs f hf).2, fun hw => ?_, ?_⟩
      · have hl := ((hs.each f).listed _ hw).1
        rw [hnew] at hl
        cases hl
      · rw [hnew]
        simp [FlightWait.Resolved, FlightWait.handed]
  refine ⟨?_, fun w => ?_⟩
  · have hfun : (fun w => (s.waits w).results) = fun w => ((Flights.registerAll
        { s with waitsMade := s.waitsMade + 1 } s.waitsMade fs).waits w).results := by
      funext w
      by_cases heq : w = s.waitsMade
      · rw [heq, hgrown.results]
      · rw [hothers w heq]
    rw [← hfun]
    exact hsound
  · by_cases heq : w = s.waitsMade
    · subst heq
      intro l hl
      rcases hgrown.covered l hl with hl | hl
      · rw [show (s.waits s.waitsMade).covered = [] by rw [hnew]] at hl
        cases hl
      · exact .inr (.inr hl)
    · rw [hothers w heq]
      exact h.covers w

theorem Sound.waitInFlight (h : s.Sound) (start stop : Location) :
    (s.waitInFlight start stop).Sound := by
  unfold Flights.waitInFlight
  split
  · exact h
  · refine h.newWait (h.counted.slots.nodup.filter _) fun f hf => ?_
    rw [within, mem_filter, Bool.and_eq_true, Bool.and_eq_true] at hf
    exact ⟨hf.1, hf.2.1.1⟩

theorem Sound.setWait (h : s.Sound) {fw : FlightWait} (hw : w < s.waitsMade)
    (hslots : fw.slots = (s.waits w).slots) (hstopped : fw.stopped = (s.waits w).stopped)
    (hok : fw.WaitOk (s.registrations w) fw.results) (hcovers : fw.Covers) :
    (s.setWait w fw).Sound where
  counted := by
    refine h.counted.update hw (hslots ▸ List.Subset.refl _) (fun hs => hstopped.trans hs)
      (fun w' hne => ?_) ?_
    · rw [setWait_of_ne s hne]
    · rw [setWait_self]
      exact hok
  covers := (forall_update_iff s.waits fun _ fw => fw.Covers).mpr ⟨hcovers, fun w' _ => h.covers w'⟩

theorem Draining.toSound (h : s.Draining w gaveUp []) : s.Sound where
  counted :=
    { slots := h.sound.slots
      waits := fun w' => by
        have hok := h.sound.waits w'
        by_cases heq : w' = w
        · subst heq
          rw [if_pos rfl] at hok
          rw [h.results]
          exact hok
        · rw [if_neg heq] at hok
          exact hok }
  covers := h.covers

theorem Sound.setPhase (h : s.Sound) {phase : FlightWait.Phase} (hw : w < s.waitsMade)
    (hok : FlightWait.WaitOk { s.waits w with phase := phase } (s.registrations w)
      (s.waits w).results) : (s.setPhase w phase).Sound :=
  h.setWait hw rfl rfl hok (h.covers w)

theorem Draining.setPhase (h : s.Draining w gaveUp []) : (s.setPhase w
      (if gaveUp then .returned (s.waits w).stillArriving else .waiting)).Sound := by
  refine h.toSound.setPhase h.made ?_
  rw [h.results]
  refine h.waitOk.setPhase h.ended (fun hne => absurd rfl hne) fun still hstill => ⟨?_, .inl rfl⟩
  cases gaveUp with
  | true => exact (FlightWait.Phase.returned.inj hstill).symm
  | false => cases hstill

/-- `stop` filters only the slots the wait has listed; by `listed` no other one has it. -/
theorem Sound.stop (h : s.Sound) (hended : (s.waits w).ended = true) : (s.stop w).Sound := by
  have hs := h.counted.slots
  have hw : w < s.waitsMade := h.made fun hphase => by
    simp only [FlightWait.ended, hphase] at hended
    cases hended
  have hwaiters : ∀ f, ((s.stop w).slots f).waiters = (s.slots f).waiters.filter (· ≠ w) := by
    intro f
    simp only [Flights.stop]
    split
    · rfl
    · next hout =>
      rw [filter_eq_self.mpr]
      intro w' hw'
      have hne : w' ≠ w := fun heq => hout (heq ▸ ((hs.each f).listed w' hw').1)
      exact decide_eq_true hne
  have hsame : ∀ f, ((s.stop w).slots f).active = (s.slots f).active ∧
      ((s.stop w).slots f).loc = (s.slots f).loc := by
    intro f
    simp only [Flights.stop]
    split <;> exact ⟨rfl, rfl⟩
  have hself : (s.stop w).waits w = { s.waits w with stopped := true } := update_self _ _ _
  have hothers : ∀ {w'}, w' ≠ w → (s.stop w).waits w' = s.waits w' :=
    fun hne => update_of_ne hne _ _
  refine ⟨⟨⟨hs.nodup, fun f => ?_, hs.slotsMade, (forall_update_iff s.waits
    fun w' fw => s.waitsMade ≤ w' → fw = {}).mpr ⟨fun hge => absurd hw (Nat.not_lt.mpr hge),
      fun w' _ => hs.waitsMade w'⟩⟩, fun w' => ?_⟩,
    (forall_update_iff s.waits fun _ fw => fw.Covers).mpr ⟨h.covers w, fun w' _ => h.covers w'⟩⟩
  · have hf := hs.each f
    refine ⟨fun ha => hf.active ((hsame f).1 ▸ ha), fun ha => ?_, ?_, fun w' hw' => ?_⟩
    · rw [hwaiters, hf.inactive ((hsame f).1 ▸ ha)]
      rfl
    · rw [hwaiters]
      exact hf.waiters.filter _
    · rw [hwaiters, mem_filter, decide_eq_true_eq] at hw'
      rw [hothers hw'.2]
      exact hf.listed w' hw'.1
  · by_cases heq : w' = w
    · subst heq
      rw [hself]
      have hok := h.counted.waits w'
      exact
        { nodup := hok.nodup
          objs := hok.objs
          posted := hok.posted
          woken := fun _ => .inr (.inr hended)
          returned := hok.returned
          pending := fun hst => by cases hst
          stopped := fun _ => hended }
    · have hregs : (s.stop w).registrations w' = s.registrations w' :=
        registrations_congr rfl fun f loc => by
          simp only [registeredAt, arriving, (hsame f).1, (hsame f).2, hwaiters]
          congr 1
          simp [heq]
      rw [hothers heq, hregs]
      exact h.counted.waits w'

theorem Sound.step {a : Act} (h : s.Sound) (hs : s.step a = some s') : s'.Sound := by
  cases a with
  | newInFlight =>
    cases hs
    exact h.newInFlight
  | headerRead f loc =>
    obtain ⟨⟨hf, hinactive⟩, rfl⟩ := guard_iff.mp hs
    exact h.headerRead hf hinactive loc
  | endInFlight f obj =>
    obtain ⟨⟨hf, hobj⟩, rfl⟩ := guard_iff.mp hs
    exact h.endInFlight hf hobj
  | releaseInFlight f =>
    obtain ⟨hf, rfl⟩ := guard_iff.mp hs
    exact h.releaseInFlight hf
  | waitInFlight start stop =>
    cases hs
    exact h.waitInFlight start stop
  | forget w loc =>
    obtain ⟨⟨hw, hended⟩, rfl⟩ := guard_iff.mp hs
    exact h.setWait hw rfl rfl ((h.counted.waits w).forget loc hended) ((h.covers w).forget loc)
  | wait w =>
    obtain ⟨⟨hw, hphase⟩, rfl⟩ := guard_iff.mp hs
    refine h.setPhase hw ((h.counted.waits w).setPhase (by simp only [FlightWait.ended, hphase])
      (fun hne => ?_) (by simp))
    rcases (h.counted.waits w).woken hne with hn | ⟨g, hg⟩ | he
    · exact .inl hn
    · cases hphase.symm.trans hg
    · simp only [FlightWait.ended, hphase] at he
      cases he
  | notified w =>
    obtain ⟨⟨hphase, -, -⟩, rfl⟩ := guard_iff.mp hs
    have hok : FlightWait.WaitOk { s.waits w with phase := .draining false } (s.registrations w)
        (s.waits w).results :=
      (h.counted.waits w).setPhase (by simp only [FlightWait.ended, hphase])
        (fun _ => .inr (.inl ⟨false, rfl⟩)) (by simp)
    exact h.setWait (h.made (by simp [hphase])) rfl rfl
      { hok with woken := fun _ => .inr (.inl ⟨false, rfl⟩) } (h.covers w)
  | giveUp w =>
    obtain ⟨⟨hphase, -⟩, rfl⟩ := guard_iff.mp hs
    exact h.setPhase (h.made (by simp [hphase])) ((h.counted.waits w).setPhase
      (by simp only [FlightWait.ended, hphase]) (fun _ => .inr (.inl ⟨true, rfl⟩)) (by simp))
  | drain w =>
    simp only [Flights.step] at hs
    split at hs
    · next gaveUp hphase =>
      cases hs
      exact (h.drain hphase).setPhase
    · cases hs
  | finish w =>
    obtain ⟨⟨hphase, hkeys⟩, rfl⟩ := guard_iff.mp hs
    refine h.setPhase (h.made (by simp [hphase])) ((h.counted.waits w).setPhase
      (by simp only [FlightWait.ended, hphase]) (fun _ => .inr (.inr (.inl ⟨[], rfl⟩))) ?_)
    intro still hstill
    cases hstill
    exact ⟨hkeys.symm, .inr hkeys⟩
  | stillArriving w =>
    obtain ⟨⟨hw, hphase⟩, rfl⟩ := guard_iff.mp hs
    exact h.setPhase hw ((h.counted.waits w).setPhase (by simp only [FlightWait.ended, hphase])
      (fun _ => .inr (.inr (.inr ⟨_, rfl⟩))) (by simp))
  | stop w =>
    obtain ⟨⟨hended, -⟩, rfl⟩ := guard_iff.mp hs
    exact h.stop hended

/-- **Waiting loses and duplicates nothing.** In every run, for every wait:
    * until it is stopped, `pending` counts, for a Location neither handed over nor forgotten, the
      active slots it is registered on plus the results it has not taken;
    * at most one Object of a Location is handed over;
    * a Location that a slot completed with an Object is handed over or forgotten when `Wait`
      returns, and before that a result with an Object is there, the Location is pending and,
      unless nobody waits, `Wait` is awake or has a wake-up to receive;
    * when `Wait` returns nothing still arriving, each Location it was registered on was handed
      over or forgotten, or no stream was reading it at the drain that took its last result. -/
theorem waits_account {acts : List Act} {s : Flights} (hrun : run step init acts = some s)
    (w : WaitID) :
    ((s.waits w).stopped = false → ∀ loc, loc ∉ (s.waits w).handed → loc ∉ (s.waits w).forgotten →
      ((s.waits w).pending.lookup loc).getD 0 =
        s.registrations w loc + (s.waits w).results.countP (·.loc = loc)) ∧
    (s.waits w).handed.Nodup ∧
    (∀ loc ∈ (s.waits w).posted, loc ∈ (s.waits w).handed ∨ loc ∈ (s.waits w).forgotten ∨
      (∀ still, (s.waits w).phase ≠ .returned still) ∧ loc ∈ (s.waits w).pending ∧
      (∃ r ∈ (s.waits w).results, r.loc = loc ∧ r.obj.isSome) ∧
      ((s.waits w).notify = true ∨ (∃ gaveUp, (s.waits w).phase = .draining gaveUp) ∨
        ∃ still, (s.waits w).phase = .unwaited still)) ∧
    ((s.waits w).phase = .returned [] → ∀ loc ∈ (s.waits w).covered,
      loc ∈ (s.waits w).handed ∨ loc ∈ (s.waits w).forgotten ∨ loc ∈ (s.waits w).idle) := by
  have h : s.Sound := run_inv (fun _ _ _ h => h.step) sound_init hrun
  have hok := h.counted.waits w
  refine ⟨fun hstopped loc hhanded hforgotten => ?_, hok.nodup, fun loc hloc => ?_,
    fun hphase loc hloc => ?_⟩
  · have hres : ¬ (s.waits w).Resolved loc := by
      rintro (hr | hr)
      · exact hhanded hr
      · exact hforgotten hr
    rw [(hok.pending hstopped).getD, FlightWait.due, if_neg hres]
  · rcases hok.posted loc hloc with (hr | hr) | ⟨hphase, hp, r, hr, hr'⟩
    · exact .inl hr
    · exact .inr (.inl hr)
    · refine .inr (.inr ⟨hphase, hp, ⟨r, hr, hr'⟩, ?_⟩)
      rcases hok.woken (ne_nil_of_mem hr) with hn | hd | hended
      · exact .inl hn
      · exact .inr (.inl hd)
      · unfold FlightWait.ended at hended
        split at hended
        · next still hstill => exact absurd hstill (hphase still)
        · next still hstill => exact .inr (.inr ⟨still, hstill⟩)
        · cases hended
  · rcases h.covers w loc hloc with (hr | hr) | hr | hr
    · exact .inl hr
    · exact .inr (.inl hr)
    · exact .inr (.inr hr)
    · rw [AList.mem_keys, ← hok.returned [] hphase] at hr
      cases hr

/-- The stream the wait was registered on abandons the Object, another one has started it since,
    and its copy is handed over. -/
theorem waits_account_restarted :
    ∃ s : Flights, (s.waits 0).phase = .returned [] ∧ (s.waits 0).handed = [⟨1, 5⟩] ∧
      (s.waits 0).handed.Nodup := by
  refine (computes_two (o := run step init
    [.newInFlight, .newInFlight, .headerRead 0 ⟨1, 5⟩, .waitInFlight ⟨0, 0⟩ ⟨9, 0⟩, .wait 0,
      .headerRead 1 ⟨1, 5⟩, .endInFlight 0 none, .notified 0, .drain 0,
      .endInFlight 1 (some { groupID := 1, objectID := 5 }), .notified 0, .drain 0, .finish 0])
    (by decide +kernel) ?_).imp fun _ => And.right
  exact fun _ hs _ _ => (waits_account hs 0).2.1

/-- A Location dropped by an earlier drain may be read again at the last one: stream 0 abandons
    Object {1, 5}, and only after that drain stream 2 starts it, while the wait goes on for
    Object {1, 6}. -/
theorem begun_before_last_drain :
    ∃ acts s s' s'', run step init acts = some s ∧ s.step (.drain 0) = some s' ∧
      s'.step (.finish 0) = some s'' ∧ (s''.waits 0).phase = .returned [] ∧
      ⟨1, 5⟩ ∈ (s''.waits 0).covered ∧ ⟨1, 5⟩ ∉ (s''.waits 0).handed ∧
      ⟨1, 5⟩ ∉ (s''.waits 0).forgotten ∧ s.inflight.any (s.arriving ⟨1, 5⟩) = true := by
  obtain ⟨s, hs, hany, hlast⟩ := computes (o := run step init
      [.newInFlight, .newInFlight, .newInFlight, .headerRead 0 ⟨1, 5⟩, .headerRead 1 ⟨1, 6⟩,
        .waitInFlight ⟨0, 0⟩ ⟨9, 0⟩, .wait 0, .endInFlight 0 none, .notified 0, .drain 0,
        .headerRead 2 ⟨1, 5⟩, .endInFlight 1 (some { groupID := 1, objectID := 6 }),
        .notified 0])
    (P := fun s => s.inflight.any (s.arriving ⟨1, 5⟩) = true ∧
      ((run step s [.drain 0, .finish 0]).any fun s'' => decide
        ((s''.waits 0).phase = .returned [] ∧ ⟨1, 5⟩ ∈ (s''.waits 0).covered ∧
          ⟨1, 5⟩ ∉ (s''.waits 0).handed ∧ ⟨1, 5⟩ ∉ (s''.waits 0).forgotten)) = true)
    (by decide +kernel)
  obtain ⟨s'', hs'', hphase, hcovered, hhanded, hforgotten⟩ := computes hlast
  obtain ⟨s', hdrain, hfinish⟩ := run_cons.mp hs''
  rw [run_singleton] at hfinish
  exact ⟨_, s, s', s'', hs, hdrain, hfinish, hphase, hcovered, hhanded, hforgotten, hany⟩

end Flights
end MoqGo.Relay
