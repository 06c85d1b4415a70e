import MoqGo.Relay.Fanout.Offers

/-!
# Nothing is withheld behind a FIN

A FIN tells the subscriber that the Subgroup has no Objects but those it was sent. A writer omits
Objects for many reasons (its subscription's filters and Forward State, a full inbox, an Object
that expired in it, one that has aged out of the ledger), from two goroutines, and each omission
has to leave a mark that turns the FIN into a reset: `incomplete`, `inboundReset`, `writeFailed` or
`lagExceeded`.

**One omission is not marked**: an Object before the subscription's Start Location, unless it is
above the Object admitted last, where the Start was raised past Objects already sent. Everything
else that was offered to a writer whose stream ends with a FIN was written
(`fin_withholds_nothing`). An Object offered after the last contributor left would be lost without
a mark, but there is no such offer: that is `live` in `Complete.closed`.
-/

namespace MoqGo.Relay

open Message List

/-! ## What may be left out -/

/-- The ID of the Object admitted last. -/
def lastAdmittedID (h : List Offer) : Option UInt64 :=
  (h.filter Offer.admitted).getLast?.map Offer.id

theorem lastAdmittedID_concat (h : List Offer) (o : Offer) :
    lastAdmittedID (h ++ [o]) = if o.admitted then some o.id else lastAdmittedID h := by
  unfold lastAdmittedID
  cases ho : o.admitted with
  | false => simp [ho]
  | true => simp [ho]

/-- `o`, offered after `before`, is before the Start Location, and not above the Object admitted
    last, if there is one. -/
def BeforeStart (before : List Offer) (o : Offer) : Prop :=
  o.verdict = .skipBeforeStart ∧ ∀ id, lastAdmittedID before = some id → o.id ≤ id

/-- Every Object of the history is among `ids`, but for those before the Start. -/
def Accounts (h : List Offer) (ids : List UInt64) : Prop :=
  ∀ before o after, h = before ++ o :: after → BeforeStart before o ∨ o.id ∈ ids

theorem Accounts.nil (ids : List UInt64) : Accounts [] ids := by
  intro before o after h
  cases before <;> cases h

theorem Accounts.mono {h : List Offer} {ids ids' : List UInt64} (ha : Accounts h ids)
    (hsub : ids ⊆ ids') : Accounts h ids' := by
  intro before o after heq
  exact (ha before o after heq).imp_right fun hin => hsub hin

theorem Accounts.concat {h : List Offer} {ids : List UInt64} {o : Offer} (ha : Accounts h ids)
    (ho : BeforeStart h o ∨ o.id ∈ ids) : Accounts (h ++ [o]) ids := by
  intro before o' after heq
  rcases eq_nil_or_concat after with rfl | ⟨after, last, rfl⟩
  · obtain ⟨rfl, hlast⟩ := append_inj' heq rfl
    cases hlast
    exact ho
  · rw [concat_eq_append, ← cons_append, ← append_assoc] at heq
    exact ha before o' after (append_inj_left' heq rfl)

namespace Writer

/-! ## A writer that lost nothing -/

/-- Writer `w` has or had all it was offered, as long as it is clean. -/
structure Complete (w : Writer) (h : List Offer) (live : Prop) : Prop where
  linked : w.finished = false → w.Linked
  last : lastAdmittedID h = if w.hasAdmitted then some w.lastAdmitted else none
  kept : w.finished = false → w.Clean → Accounts h (w.written ++ w.inbox.map FwdObject.absID)
  closed : w.finished = false → w.Clean → w.closed = true → ¬ live
  called : w.closeCalled = true → w.closed = true
  reset : w.inboundReset = true → w.closeCalled = true
  fin : ∀ s, (s, StreamEnd.fin) ∈ w.past → w.finished = true ∧ ¬ live ∧ Accounts h w.written

variable {w w' : Writer} {h h' : List Offer} {live : Prop}

theorem Complete.new (hdr : SubgroupHeader) (inboxCap maxDrops : Nat) (live : Prop) :
    Complete { hdr := hdr, inboxCap := inboxCap, maxDropsBeforeReset := maxDrops } [] live where
  linked _ := .new hdr inboxCap maxDrops
  last := rfl
  kept _ _ := .nil _
  closed _ _ h := nomatch h
  called h := nomatch h
  reset h := nomatch h
  fin _ h := nomatch h

section

variable (hc : w.Complete h live) (hs : w'.streamState = w.streamState)
  (hlast : lastAdmittedID h' = if w'.hasAdmitted then some w'.lastAdmitted else none)
include hc hs hlast

theorem Complete.of_streamState (hkept : w'.finished = false → w'.Clean →
      Accounts h' (w.written ++ w'.inbox.map FwdObject.absID))
    (hclosed : w'.finished = false → w'.Clean → w'.closed = true → ¬ live)
    (hcalled : w'.closeCalled = true → w'.closed = true)
    (hreset : w'.inboundReset = true → w'.closeCalled = true) (hsame : live ∨ h' = h) :
    w'.Complete h' live := by
  have hwritten : w'.written = w.written := by
    rw [written, written, streams_of_streamState hs]
  refine ⟨Linked.of_streamState hc.linked hs, hlast, hwritten ▸ hkept, hclosed, hcalled, hreset,
    fun s hmem => ?_⟩
  simp only [streamState, Prod.mk.injEq] at hs
  obtain ⟨-, hpast, -, -, -, hfin⟩ := hs
  obtain ⟨hdone, hdead, hall⟩ := hc.fin s (hpast ▸ hmem)
  rw [hwritten, hfin, hsame.resolve_left hdead]
  exact ⟨hdone, hdead, hall⟩

/-! ### What contributors do -/

theorem Complete.marked (hmark : ¬ w'.Clean) (hcalled : w'.closeCalled = true → w'.closed = true)
    (hreset : w'.inboundReset = true → w'.closeCalled = true) (hsame : live ∨ h' = h) :
    w'.Complete h' live :=
  hc.of_streamState hs hlast (fun _ hw => absurd hw hmark) (fun _ hw => absurd hw hmark) hcalled
    hreset hsame

end

theorem not_clean_markIncomplete (w : Writer) (code : StreamResetCode) :
    ¬ (w.markIncomplete code).Clean :=
  fun hw => absurd hw.1 nofun

section

variable (hc : w.Complete h live)
include hc

theorem Complete.close (reset : Bool) (code : StreamResetCode)
    (hreset : reset = false → ¬ live) : (w.close reset code).Complete h live := by
  unfold Writer.close
  split_ifs with hcalled
  · exact hc
  · refine hc.of_streamState rfl hc.last ?_ (fun _ hw _ => hreset hw.2.2.1) (fun _ => rfl)
      (fun _ => rfl) (.inr rfl)
    intro hf hw
    -- the mark the first call sets was not set
    have hr : w.inboundReset = false := by
      by_contra hr
      exact hcalled (hc.reset (by simpa using hr))
    exact hc.kept hf ⟨hw.1, hw.2.1, hr, hw.2.2.2⟩

theorem Complete.not_clean_close (hl : live) (hf : w.finished = false)
    (code : StreamResetCode) : ¬ (w.close true code).Clean := by
  unfold Writer.close
  split_ifs with hcalled
  · exact fun hw => hc.closed hf hw (hc.called hcalled) hl
  · exact fun hw => absurd hw.2.2.1 nofun

/-- **`skip` marks every omission** but that of an Object before the Start. -/
theorem Complete.skip (hl : live) {o : Offer} (ho : o.admitted = false)
    (hv : o.verdict ≠ .forward) : (w.skip o.verdict o.id).Complete (h ++ [o]) live := by
  have hlast : lastAdmittedID (h ++ [o]) = if w.hasAdmitted then some w.lastAdmitted else none := by
    rw [lastAdmittedID_concat, ho, if_neg Bool.false_ne_true, hc.last]
  have hmarked : (w.markIncomplete .cancelled).Complete (h ++ [o]) live :=
    hc.marked rfl hlast (w.not_clean_markIncomplete _) hc.called hc.reset (.inl hl)
  have hclosed : (w.close true .cancelled).Complete (h ++ [o]) live := by
    have hcl := hc.close true .cancelled nofun
    have hadm : lastAdmittedID (h ++ [o]) = if (w.close true .cancelled).hasAdmitted then
        some (w.close true .cancelled).lastAdmitted else none := by
      rw [lastAdmittedID_concat, ho, if_neg Bool.false_ne_true, hcl.last]
    refine hcl.of_streamState rfl hadm ?_ hcl.closed hcl.called hcl.reset (.inl hl)
    intro hf hw
    have hf' : w.finished = false := by
      unfold Writer.close at hf
      split_ifs at hf <;> exact hf
    exact absurd hw (hc.not_clean_close hl hf' _)
  cases hverdict : o.verdict with
  | forward => exact absurd hverdict hv
  | skipObject => exact hmarked
  | skipPaused => exact hmarked
  | skipGroup => exact hclosed
  | skipEnded => exact hclosed
  | skipBeforeStart =>
    simp only [Writer.skip]
    split_ifs with habove
    · exact hmarked
    · refine hc.of_streamState rfl hlast (fun hf hw => ?_) hc.closed hc.called hc.reset (.inl hl)
      refine (hc.kept hf hw).concat (.inl ⟨hverdict, fun id hid => ?_⟩)
      rw [hc.last] at hid
      split_ifs at hid with hhas
      cases hid
      simpa [hhas] using habove

theorem Complete.publish (hl : live) {o : Offer} (ho : o.admitted = true)
    {fwd : FwdObject} (hfwd : fwd.absID = o.id) :
    ({ w with lastAdmitted := o.id, hasAdmitted := true, lastPos := some o.pos }.publish
      fwd).Complete (h ++ [o]) live := by
  have hlast : lastAdmittedID (h ++ [o]) = some o.id := by
    rw [lastAdmittedID_concat, ho, if_pos rfl]
  unfold Writer.publish
  split_ifs with hclosed hroom
  · refine hc.of_streamState rfl hlast ?_ hc.closed hc.called hc.reset (.inl hl)
    intro hf hw
    exact absurd hl (hc.closed hf hw hclosed)
  · refine hc.of_streamState rfl hlast ?_ hc.closed hc.called hc.reset (.inl hl)
    intro hf hw
    have hsub : w.written ++ w.inbox.map FwdObject.absID ⊆
        w.written ++ (w.inbox ++ [fwd]).map FwdObject.absID := by
      rw [map_append, ← append_assoc]
      exact subset_append_left _ _
    refine ((hc.kept hf hw).mono hsub).concat (.inr ?_)
    rw [← hfwd]
    simp
  · have hdrop : ({ w with
        lastAdmitted := o.id
        hasAdmitted := true
        lastPos := none
        drops := w.drops + 1 }.markIncomplete .excessiveLoad).Complete (h ++ [o]) live :=
      hc.marked rfl hlast (not_clean_markIncomplete _ _) hc.called hc.reset (.inl hl)
    simp only
    split_ifs
    · exact hdrop.close true .excessiveLoad nofun
    · exact hdrop

theorem Complete.offered (hl : live) (o : Offer) (obj : SubgroupObject)
    (first : Bool) : (w.offered o obj first).Complete (h ++ [o]) live := by
  unfold Writer.offered
  split_ifs with haged hv
  · have hadm : o.admitted = false := by simp [Offer.admitted, haged]
    refine hc.marked rfl ?_ (w.not_clean_markIncomplete _) hc.called hc.reset (.inl hl)
    rw [lastAdmittedID_concat, hadm, if_neg Bool.false_ne_true]
    exact hc.last
  · exact hc.skip hl (by simp [Offer.admitted, haged]) hv
  · by_cases hv : o.verdict = .forward
    · simp only [admitObject, hv, if_true]
      exact hc.publish hl (by simp [Offer.admitted, haged, hv]) rfl
    · have hskip := hc.skip hl (by simp [Offer.admitted, hv]) hv
      simp only [admitObject, hv, if_false, Bool.false_eq_true]
      split_ifs
      · exact hskip.of_streamState rfl hskip.last hskip.kept hskip.closed hskip.called hskip.reset
          (.inr rfl)
      · exact hskip

/-! ### What its goroutine does -/

/-- **A pass of the loop** writes the first Object of the inbox, or leaves a mark. -/
theorem Complete.handle {fwd : FwdObject} {rest : List FwdObject}
    (hf : w.finished = false) (hin : w.inbox = fwd :: rest) (fate : Fate) :
    ({ w with inbox := rest }.handle fwd fate).Complete h live := by
  obtain ⟨w', hw', hstep, hl, hinbox, hhas, hlast, hreset, hcalled⟩ :=
    dequeue_step (hc.linked hf) fwd rest fate
  rw [hw']
  refine ⟨fun _ => hl, ?_, fun _ hw => ?_, fun _ hw hclosed => ?_, fun hcall => ?_, ?_,
    fun s hs => ?_⟩
  · rw [hhas, hlast]
    exact hc.last
  · obtain ⟨hclean, -, hwritten⟩ := hstep.clean hw
    have hkept := hc.kept hf hclean
    rw [hin] at hkept
    rw [hwritten, hinbox]
    rwa [map_cons, append_cons] at hkept
  · obtain ⟨hclean, heq, -⟩ := hstep.clean hw
    exact hc.closed hf hclean (heq ▸ hclosed)
  · exact hstep.outside.2 (hc.called (hcalled ▸ hcall))
  · rw [hreset, hcalled]
    exact hc.reset
  · exact absurd (hf.symm.trans (hc.fin s (hstep.fin hs)).1) nofun

/-- **The end of the loop**: a FIN is set by a clean writer whose inbox is empty. -/
theorem Complete.finish (hf : w.finished = false)
    (hend : w.lagExceeded = true ∨ w.closeCalled = true ∧ w.inbox = []) :
    w.finish.Complete h live := by
  have hdone : ∀ {p : Prop}, w.finish.finished = false → p :=
    fun h => Bool.noConfusion (show true = false from h)
  have hmarks := w.finish_marks
  simp only [marks, Prod.mk.injEq] at hmarks
  obtain ⟨-, hhas, hadm, hreset, hcalled⟩ := hmarks
  refine ⟨hdone, ?_, hdone, hdone, fun hcall => ?_, ?_, fun s hs => ⟨rfl, ?_⟩⟩
  · rw [hhas, hadm]
    exact hc.last
  · exact w.finish_outside.2 (hc.called (hcalled ▸ hcall))
  · rw [hreset, hcalled]
    exact hc.reset
  · rcases mem_past_finish hs with hs | ⟨hfin, -⟩
    · exact Bool.noConfusion (hf.symm.trans (hc.fin s hs).1)
    · simp only [endsWithFin, Bool.and_eq_true, Bool.not_eq_true'] at hfin
      obtain ⟨⟨⟨⟨⟨hlag, -⟩, hfail⟩, hres⟩, hinc⟩, -⟩ := hfin
      have hclean : w.Clean := ⟨hinc, hfail, hres, hlag⟩
      obtain ⟨hcall, hempty⟩ := hend.resolve_left (by simp [hlag])
      have hkept := hc.kept hf hclean
      rw [hempty, map_nil, append_nil] at hkept
      rw [finish_written]
      exact ⟨hc.closed hf hclean (hc.called hcall), hkept⟩

end

theorem Complete.inv : WriterInv Complete where
  new hdr inboxCap maxDrops live hnil := hnil ▸ .new hdr inboxCap maxDrops live
  numbered _ hc := hc.of_streamState rfl hc.last hc.kept hc.closed hc.called hc.reset (.inr rfl)
  mono hl hc := ⟨hc.linked, hc.last, hc.kept, fun hf hw hcl => mt hl (hc.closed hf hw hcl),
    hc.called, hc.reset, fun s hs =>
      ⟨(hc.fin s hs).1, mt hl (hc.fin s hs).2.1, (hc.fin s hs).2.2⟩⟩
  offer o obj first hl hc := hc.offered hl o obj first
  close reset code hreset hc := hc.close reset code hreset
  dequeue fate hf _ hin hc := hc.handle hf hin fate
  finish hf hend _ hc := hc.finish hf hend

end Writer

namespace Traced

open World

/-- **A FIN withholds nothing**: in every run, an Object offered to a writer that ended a stream
    with a FIN was written on one of its streams, unless it was before the Start Location and not
    above the Object admitted last. -/
theorem fin_withholds_nothing {cfg : WriterSet.Config} {cache : ObjectCache} {as : List Action}
    {t : Traced} (hrun : Lib.run step (init cfg cache) as = some t) {i : SetID} {sub : SubID}
    {w : Writer} (hw : (t.world.sets i).writers sub = some (some w)) {s : OutStream}
    (hs : (s, StreamEnd.fin) ∈ w.past) {before after : List Offer} {o : Offer}
    (ho : t.offers i sub = before ++ o :: after) :
    (∃ s' ∈ w.streams, o.id ∈ s'.ids) ∨
      (o.verdict = .skipBeforeStart ∧ ∀ id, lastAdmittedID before = some id → o.id ≤ id) := by
  have hc : w.Complete (t.offers i sub) (t.world.Registered i) := Writer.Complete.inv.holds hrun hw
  rcases (hc.fin s hs).2.2 before o after ho with hstart | hwritten
  · exact .inr hstart
  · exact .inl (mem_flatMap.mp hwritten)

/-- Object 0 is before the Start; Object 1 is forwarded, and the stream ends with a FIN. -/
theorem fin_withholds_nothing_started :
    ∃ (t : Traced) (w : Writer) (s : OutStream), (s, StreamEnd.fin) ∈ w.past ∧
      t.offers 0 0 = [⟨⟨0, 1⟩, 0, .skipBeforeStart, false⟩, ⟨⟨0, 2⟩, 1, .forward, false⟩] ∧
      ∃ s' ∈ w.streams, (1 : UInt64) ∈ s'.ids := by
  have hrun : (Lib.run step (init ⟨8, 0⟩ (.new 4 0))
      ([.register 0] ++ opening 0 {} ++ [.header 0 0 {} fun _ => true, .claim 0 0,
        .forward 0 0 fun _ => .skipBeforeStart] ++ reading 0 1 ++
        [.eof 0 0, .leave 0 fun _ => false, .dequeue 0 0 {}, .finish 0 0])).map
      (fun t => (t.offers 0 0, ((t.world.sets 0).writers 0).join.any fun w =>
        w.past.any fun p => p.2 = .fin)) =
      some ([⟨⟨0, 1⟩, 0, .skipBeforeStart, false⟩, ⟨⟨0, 2⟩, 1, .forward, false⟩], true) := by
    decide +kernel
  obtain ⟨t, ht, heq⟩ := Option.map_eq_some_iff.mp hrun
  obtain ⟨hoffers, hfin⟩ := Prod.mk.inj heq
  rw [Option.any_eq_true] at hfin
  obtain ⟨w, hw, hfin⟩ := hfin
  obtain ⟨p, hp, hpfin⟩ := any_eq_true.mp hfin
  have hw' : (t.world.sets 0).writers 0 = some (some w) := Option.join_eq_some_iff.mp hw
  have hs : (p.1, StreamEnd.fin) ∈ w.past := by
    rw [← of_decide_eq_true hpfin]
    exact hp
  have hsplit : t.offers 0 0 = [⟨⟨0, 1⟩, 0, .skipBeforeStart, false⟩] ++
    ⟨⟨0, 2⟩, 1, .forward, false⟩ :: [] := hoffers
  refine ⟨t, w, p.1, hs, hoffers, (fin_withholds_nothing ht hw' hs hsplit).resolve_right ?_⟩
  exact fun hstart => absurd hstart.1 nofun

end Traced
end MoqGo.Relay
