import MoqGo.Relay.Fanout.Offers

/-!
# Only the next Object stays on a stream

Two Objects that follow each other on one stream tell the subscriber that nothing lies between
them (§11.3.2). The writer has three ways to know: the Object IDs are consecutive; the later
Object's Prior Object ID Gap says so; or the later was read right after the earlier **on one
inbound stream**, where what its subscription's filters took out in between does not count.

The third is found out in two places. Contributors keep `lastPos`, which moves over refused
Objects and is cleared when the inbox overflows, and mark an Object that `follows`; the writer's
goroutine ignores the mark once it has `dropped` an Object that expired. Between the two stands the
inbox. `Continuous` ties them together: over the Object written last and those in the inbox, in
order, a mark is right about the Object before it (`chained`), and `lastPos` is right about the last
of them (`tail`). Both ends give up their hold where they lose one: a closed writer enqueues no
more, and one that dropped, failed or lagged has no Object written last.
-/

namespace MoqGo.Relay

open Message List

/-! ## Right after each other on an inbound stream -/

/-- Object `id` was read at `pos`, and let through to the writer. -/
def AdmittedAt (h : List Offer) (pos : InboundPos) (id : UInt64) : Prop :=
  ∃ o ∈ h, o.pos = pos ∧ o.id = id ∧ o.admitted = true

/-- The Object read at `pos` was refused by `ForwardDecision`. -/
def RefusedAt (h : List Offer) (pos : InboundPos) : Prop :=
  ∃ o ∈ h, o.pos = pos ∧ o.verdict ≠ .forward

/-- Objects `x` and `y` were read from one inbound stream, and every Object read from it between
    them was refused. -/
def ReadNext (h : List Offer) (x y : UInt64) : Prop :=
  ∃ src i j, i < j ∧ AdmittedAt h ⟨src, i⟩ x ∧ AdmittedAt h ⟨src, j⟩ y ∧
    ∀ k, i < k → k < j → RefusedAt h ⟨src, k⟩

/-- Object `x` was read from the inbound stream of `pos`, and every Object read from it since, up
    to `pos`, was refused. -/
def ReadUpTo (h : List Offer) (x : UInt64) (pos : InboundPos) : Prop :=
  ∃ i ≤ pos.seq, AdmittedAt h ⟨pos.src, i⟩ x ∧
    ∀ k, i < k → k ≤ pos.seq → RefusedAt h ⟨pos.src, k⟩

/-- `y` may stand directly after `x` on a stream. -/
def NextAfter (h : List Offer) (x y : UInt64 × SubgroupObject) : Prop :=
  y.1 = x.1 + 1 ∨ x.1 < y.1 ∧
    (priorObjectIDGap y.2.properties = some (y.1 - x.1 - 1) ∨ ReadNext h x.1 y.1)

section History

variable {h h' : List Offer} {x y : UInt64} {pos : InboundPos}

theorem AdmittedAt.mono (hsub : h ⊆ h') (ha : AdmittedAt h pos x) : AdmittedAt h' pos x := by
  obtain ⟨o, ho, hrest⟩ := ha
  exact ⟨o, hsub ho, hrest⟩

theorem RefusedAt.mono (hsub : h ⊆ h') (hr : RefusedAt h pos) : RefusedAt h' pos := by
  obtain ⟨o, ho, hrest⟩ := hr
  exact ⟨o, hsub ho, hrest⟩

theorem ReadNext.mono (hsub : h ⊆ h') (hn : ReadNext h x y) : ReadNext h' x y := by
  obtain ⟨src, i, j, hij, hx, hy, hbetween⟩ := hn
  exact ⟨src, i, j, hij, hx.mono hsub, hy.mono hsub, fun k hi hj => (hbetween k hi hj).mono hsub⟩

theorem ReadUpTo.mono (hsub : h ⊆ h') (hu : ReadUpTo h x pos) : ReadUpTo h' x pos := by
  obtain ⟨i, hi, hx, hsince⟩ := hu
  exact ⟨i, hi, hx.mono hsub, fun k hik hk => (hsince k hik hk).mono hsub⟩

theorem NextAfter.mono {x y : UInt64 × SubgroupObject} (hsub : h ⊆ h') (hn : NextAfter h x y) :
    NextAfter h' x y :=
  hn.imp_right fun hn => ⟨hn.1, hn.2.imp_right fun hr => hr.mono hsub⟩

theorem ReadUpTo.next (hu : ReadUpTo h x pos) (hy : AdmittedAt h ⟨pos.src, pos.seq + 1⟩ y) :
    ReadNext h x y := by
  obtain ⟨i, hi, hx, hsince⟩ := hu
  exact ⟨pos.src, i, pos.seq + 1, Nat.lt_succ_of_le hi, hx, hy,
    fun k hik hk => hsince k hik (Nat.le_of_lt_succ hk)⟩

theorem ReadUpTo.past (hu : ReadUpTo h x pos) (hr : RefusedAt h ⟨pos.src, pos.seq + 1⟩) :
    ReadUpTo h x ⟨pos.src, pos.seq + 1⟩ := by
  obtain ⟨i, hi, hx, hsince⟩ := hu
  refine ⟨i, Nat.le_succ_of_le hi, hx, fun k hik hk => ?_⟩
  rcases Nat.lt_or_eq_of_le hk with hk | rfl
  · exact hsince k hik (Nat.le_of_lt_succ hk)
  · exact hr

theorem ReadUpTo.here (hx : AdmittedAt h pos x) : ReadUpTo h x pos :=
  ⟨pos.seq, Nat.le_refl _, hx, fun _ hik hk => absurd hk (Nat.not_le.mpr hik)⟩

end History

theorem next_of_isNextObject {fwd : FwdObject} {prevID : UInt64} {dropped : Bool}
    (h : Writer.isNextObject fwd prevID dropped = true) :
    fwd.absID = prevID + 1 ∨ prevID < fwd.absID ∧
      (priorObjectIDGap fwd.obj.properties = some (fwd.absID - prevID - 1) ∨
        dropped = false ∧ fwd.follows = true) := by
  unfold Writer.isNextObject at h
  split_ifs at h with hone hdrop hfollows
  · exact .inl hone
  all_goals
    simp only [Bool.or_eq_true, decide_eq_true_eq, not_or, UInt64.not_le] at hdrop
    refine .inr ⟨hdrop.2, ?_⟩
  · exact .inr ⟨by simpa using hdrop.1, hfollows⟩
  · split at h
    · next gap hgap =>
      left
      rw [hgap]
      congr 1
      grind
    · cases h

namespace Writer

/-! ## The Objects a writer has in order -/

def lastWritten (w : Writer) : List (UInt64 × Bool) :=
  if w.hasWritten && !w.dropped && !w.writeFailed && !w.lagExceeded then [(w.prevID, false)] else []

/-- It, and those in the inbox, each with its `follows` mark. -/
def line (w : Writer) : List (UInt64 × Bool) :=
  w.lastWritten ++ w.inbox.map fun fwd => (fwd.absID, fwd.follows)

def Marked (h : List Offer) (a b : UInt64 × Bool) : Prop := b.2 = true → ReadNext h a.1 b.1

structure Continuous (w : Writer) (h : List Offer) : Prop where
  linked : w.finished = false → w.Linked
  chained : w.line.IsChain (Marked h)
  tail : w.closed = false → ∀ pos, w.lastPos = some pos → ∀ a ∈ w.line.getLast?, ReadUpTo h a.1 pos
  streams : ∀ s ∈ w.streams, s.written.IsChain (NextAfter h)

variable {w w' : Writer} {h h' : List Offer} {fwd : FwdObject} {l : List (UInt64 × Bool)}
  {rest : List FwdObject}

theorem Continuous.new (hdr : SubgroupHeader) (inboxCap maxDrops : Nat) :
    Continuous { hdr := hdr, inboxCap := inboxCap, maxDropsBeforeReset := maxDrops } [] where
  linked _ := .new hdr inboxCap maxDrops
  chained := .nil
  tail _ _ h := nomatch h
  streams _ h := nomatch h

theorem Continuous.of_streamState (hc : w.Continuous h) (hs : w'.streamState = w.streamState)
    (hsub : h ⊆ h') (hchained : w'.line.IsChain (Marked h'))
    (htail : w'.closed = false → ∀ pos, w'.lastPos = some pos → ∀ a ∈ w'.line.getLast?,
      ReadUpTo h' a.1 pos) : w'.Continuous h' := by
  refine ⟨Linked.of_streamState hc.linked hs, hchained, htail, fun s hmem => ?_⟩
  rw [streams_of_streamState hs] at hmem
  exact (hc.streams s hmem).imp fun _ _ hn => hn.mono hsub

theorem Continuous.frame (hc : w.Continuous h) (hs : w'.streamState = w.streamState)
    (hsub : h ⊆ h') (hline : w'.line = w.line) (hpos : w'.lastPos = w.lastPos)
    (hclosed : w'.closed = false → w.closed = false) : w'.Continuous h' := by
  refine hc.of_streamState hs hsub ?_ fun hcl pos hp a ha => ?_
  · rw [hline]
    exact hc.chained.imp fun a b hab hb => (hab hb).mono hsub
  · rw [hline] at ha
    exact (hc.tail (hclosed hcl) pos (hpos ▸ hp) a ha).mono hsub

/-! ### What contributors do -/

theorem close_closed (w : Writer) (reset : Bool) (code : StreamResetCode)
    (h : (w.close reset code).closed = false) : w.closed = false := by
  unfold Writer.close at h
  split_ifs at h
  exact h

theorem skip_closed (w : Writer) (v : ForwardVerdict) (id : UInt64)
    (h : (w.skip v id).closed = false) : w.closed = false := by
  cases v with
  | forward | skipObject | skipPaused => exact h
  | skipGroup | skipEnded => exact w.close_closed true .cancelled h
  | skipBeforeStart =>
    simp only [skip] at h
    split_ifs at h <;> exact h

section

variable (hc : w.Continuous h)
include hc

theorem Continuous.of_unmarked (hsub : h ⊆ h')
    (hw : w'.unmarked = w.unmarked) (hclosed : w'.closed = false → w.closed = false) :
    w'.Continuous h' :=
  hc.frame (congrArg streamState hw :) hsub (congrArg line hw :) (congrArg lastPos hw :) hclosed

theorem Continuous.close (reset : Bool) (code : StreamResetCode) :
    (w.close reset code).Continuous h :=
  hc.of_unmarked (List.Subset.refl h) (w.close_unmarked reset code) (w.close_closed reset code)

theorem Continuous.skip (hsub : h ⊆ h') (v : ForwardVerdict) (id : UInt64) :
    (w.skip v id).Continuous h' :=
  hc.of_unmarked hsub (w.skip_unmarked v id) (w.skip_closed v id)

/-- An Object the subscription refuses: `lastPos` moves over it, if it is the next one read. -/
theorem Continuous.refused {o : Offer} (hv : o.verdict ≠ .forward) :
    (w.admitObject o.verdict o.pos o.id).1.Continuous (h ++ [o]) := by
  have hsub : h ⊆ h ++ [o] := subset_append_left _ _
  have hskip : (w.skip o.verdict o.id).Continuous (h ++ [o]) := hc.skip hsub o.verdict o.id
  have hpos : (w.skip o.verdict o.id).lastPos = w.lastPos :=
    (congrArg lastPos (w.skip_unmarked o.verdict o.id) :)
  simp only [admitObject, hv, if_false]
  split_ifs with hfollows
  · refine hskip.of_streamState rfl (List.Subset.refl _) hskip.chained fun hcl pos hp a ha => ?_
    rw [Option.any_eq_true] at hfollows
    obtain ⟨p, hlast, hnext⟩ := hfollows
    simp only [Bool.and_eq_true, beq_iff_eq] at hnext
    cases hp
    have hold := hskip.tail hcl p (hpos.trans hlast) a ha
    have hplace : o.pos = ⟨p.src, p.seq + 1⟩ := by rw [hnext.1, hnext.2]
    rw [hplace]
    exact hold.past ⟨o, by simp, hplace, hv⟩
  · exact hskip

theorem Continuous.admitted {o : Offer} (ho : o.admitted = true) (hfwd : fwd.absID = o.id)
    (hfollows : fwd.follows = w.lastPos.any fun p => p.src == o.pos.src && p.seq + 1 == o.pos.seq) :
    ({ w with lastAdmitted := o.id, hasAdmitted := true, lastPos := some o.pos }.publish
      fwd).Continuous (h ++ [o]) := by
  have hsub : h ⊆ h ++ [o] := subset_append_left _ _
  have hadm : AdmittedAt (h ++ [o]) o.pos fwd.absID := ⟨o, by simp, rfl, hfwd.symm, ho⟩
  have hchained := hc.chained.imp fun a b hab hb => (hab hb).mono hsub
  unfold Writer.publish
  split_ifs with hclosed hroom
  · exact hc.of_streamState rfl hsub hchained fun hcl => absurd (hclosed.symm.trans hcl) nofun
  · have hline : line { w with
        lastAdmitted := o.id
        hasAdmitted := true
        lastPos := some o.pos
        inbox := w.inbox ++ [fwd] } = w.line ++ [(fwd.absID, fwd.follows)] := by
      show _ ++ List.map _ (w.inbox ++ [fwd]) = _
      rw [map_append, ← append_assoc]
      rfl
    refine hc.of_streamState rfl hsub ?_ fun _ pos hp a ha => ?_
    · rw [hline]
      refine isChain_append.mpr ⟨hchained, isChain_singleton _, fun a ha b hb hmark => ?_⟩
      cases hb
      have hmark' : fwd.follows = true := hmark
      rw [hfollows, Option.any_eq_true] at hmark'
      obtain ⟨p, hlast, hnext⟩ := hmark'
      simp only [Bool.and_eq_true, beq_iff_eq] at hnext
      have hplace : o.pos = ⟨p.src, p.seq + 1⟩ := by rw [hnext.1, hnext.2]
      have hold := (hc.tail (by simpa using hclosed) p hlast a ha).mono hsub
      exact hold.next (hplace ▸ hadm)
    · rw [hline, List.getLast?_append, List.getLast?_singleton] at ha
      cases hp
      cases ha
      exact .here hadm
  · have hdrop : ({ w with
        lastAdmitted := o.id
        hasAdmitted := true
        lastPos := none
        drops := w.drops + 1 }.markIncomplete .excessiveLoad).Continuous (h ++ [o]) :=
      hc.of_streamState rfl hsub hchained fun _ _ hp => nomatch hp
    simp only
    split_ifs
    · exact hdrop.close true .excessiveLoad
    · exact hdrop

theorem Continuous.offered (o : Offer) (obj : SubgroupObject) (first : Bool) :
    (w.offered o obj first).Continuous (h ++ [o]) := by
  have hsub : h ⊆ h ++ [o] := subset_append_left _ _
  unfold Writer.offered
  split_ifs with haged hv
  · exact hc.frame rfl hsub rfl rfl fun hcl => hcl
  · exact hc.skip hsub o.verdict o.id
  · by_cases hv : o.verdict = .forward
    · simp only [admitObject, hv, if_true]
      exact hc.admitted (by simp [Offer.admitted, haged, hv]) rfl rfl
    · have hrefused := hc.refused hv
      simp only [admitObject, hv, if_false, Bool.false_eq_true] at hrefused ⊢
      exact hrefused

end

/-! ### What its goroutine does -/

/-- The line after a pass of the loop: the Object is written, or it is lost and the line starts
    behind it. -/
theorem HandleStep.line {fate : Fate} (hs : HandleStep w fwd fate w')
    (hlag : w.lagExceeded = false) :
    w'.lastWritten = [(fwd.absID, false)] ∨ w'.lastWritten = [] := by
  cases hs with
  | lagging => exact .inr (by simp [lastWritten])
  | drained _ hfail => exact .inr (by simp [lastWritten, hfail])
  | openFailed => exact .inr (by simp [lastWritten, failWrites])
  | expired => exact .inr (by simp [lastWritten])
  | @writes w₁ _ hfail hready _ =>
    cases fate.write with
    | ok =>
      left
      have hlag₁ : w₁.lagExceeded = false := hready.flags.2.2.1.trans hlag
      have hfail₁ : w₁.writeFailed = false := by cases hready <;> exact hfail
      simp [lastWritten, write, hlag₁, hfail₁]
    | deliveryTimeout => exact .inr (by simp [lastWritten, write, failWrites])
    | failed => exact .inr (by simp [lastWritten, write, failWrites])

theorem isChain_marked_cons {a a' : UInt64 × Bool} (hc : (a :: l).IsChain (Marked h))
    (heq : a'.1 = a.1) : (a' :: l).IsChain (Marked h) := by
  cases l with
  | nil => exact isChain_singleton _
  | cons b l =>
    rw [isChain_cons_cons] at hc ⊢
    exact ⟨fun hb => heq ▸ hc.1 hb, hc.2⟩

theorem same_last {l' rest : List (UInt64 × Bool)} {id : UInt64} {follows : Bool}
    (hl : l' = [(id, false)] ∨ l' = []) :
    ∀ a ∈ (l' ++ rest).getLast?, ∃ b ∈ (l ++ (id, follows) :: rest).getLast?, b.1 = a.1 := by
  intro a ha
  rcases eq_nil_or_concat rest with rfl | ⟨rest, last, rfl⟩
  · rcases hl with rfl | rfl
    · cases ha
      exact ⟨(id, follows), by simp, rfl⟩
    · cases ha
  · refine ⟨a, ?_, rfl⟩
    simp only [concat_eq_append, List.getLast?_append, List.getLast?_cons] at ha ⊢
    simpa using ha

theorem Continuous.next_of_stays (hc : w.Continuous h) (hin : w.inbox = fwd :: rest)
    (hlag : w.lagExceeded = false) (hfail : w.writeFailed = false) (hw : w.hasWritten = true)
    (hnext : isNextObject fwd w.prevID w.dropped = true) (obj : SubgroupObject)
    {obj' : SubgroupObject} (hobj : obj'.properties = fwd.obj.properties) :
    NextAfter h (w.prevID, obj) (fwd.absID, obj') := by
  rcases next_of_isNextObject hnext with hone | ⟨hlt, hgap | ⟨hdrop, hfollows⟩⟩
  · exact .inl hone
  · exact .inr ⟨hlt, .inl (by rw [← hgap]; exact congrArg priorObjectIDGap hobj)⟩
  · refine .inr ⟨hlt, .inr ?_⟩
    have hline : w.line = (w.prevID, false) :: (fwd.absID, fwd.follows) ::
        rest.map fun fwd => (fwd.absID, fwd.follows) := by
      simp [line, lastWritten, hw, hdrop, hfail, hlag, hin]
    have hchained := hc.chained
    rw [hline, isChain_cons_cons] at hchained
    exact hchained.1 hfollows

theorem isChain_push {s : OutStream} {id : UInt64} {obj : SubgroupObject}
    (hs : s.written.IsChain (NextAfter h))
    (hnext : ∀ x ∈ s.written.getLast?, NextAfter h x (id, obj)) :
    (s.push id obj).written.IsChain (NextAfter h) := by
  refine isChain_append.mpr ⟨hs, isChain_singleton _, fun x hx y hy => ?_⟩
  cases hy
  exact hnext x hx

theorem Continuous.streams_step {fate : Fate} (hc : w.Continuous h) (hf : w.finished = false)
    (hin : w.inbox = fwd :: rest) (hlag : w.lagExceeded = false)
    (hs : HandleStep { w with inbox := rest } fwd fate w') :
    ∀ s ∈ w'.streams, s.written.IsChain (NextAfter h) := by
  have hready : ∀ {w₁}, Ready { w with inbox := rest } fwd w₁ →
      ∀ s ∈ w₁.streams, s.written.IsChain (NextAfter h) := by
    intro w₁ hr s hs
    rcases hr.streams s hs with hs | hnil
    · exact hc.streams s hs
    · rw [hnil]
      exact .nil
  cases hs with
  | lagging | drained => exact hc.streams
  | @openFailed code =>
    intro s hs
    exact hc.streams s (streams_closeOut w (.reset code) ▸ hs)
  | @expired w₁ _ _ hr _ =>
    intro s hs
    cases hw₁ : w₁.hasWritten with
    | true =>
      rw [dropExpired_written hw₁] at hs
      exact hready hr s hs
    | false =>
      rw [dropExpired_fresh hw₁] at hs
      exact hready hr s (streams_closeOut w₁ (.reset .cancelled) ▸ hs)
  | @writes w₁ _ hfail hr _ =>
    intro s hs
    cases hres : fate.write <;> rw [hres] at hs
    · rcases mem_streams.mp hs with hs | hs
      · exact hready hr s (mem_streams.mpr (.inl hs))
      · obtain ⟨s₁, hs₁⟩ := hr.out_isSome
        have hpush : s = s₁.push fwd.absID (w₁.encoded fwd) := by
          simpa [write, hs₁] using hs.symm
        rw [hpush]
        refine isChain_push (hready hr s₁ (mem_streams.mpr (.inr hs₁))) fun x hx => ?_
        -- the stream is the one that was open, and `x` the Object written last on it
        cases hr with
        | @stays s₀ hout hnext =>
          have hout' : w.out = some s₀ := hout
          cases hout'.symm.trans hs₁
          cases hw : w.hasWritten with
          | false =>
            rw [(hc.linked hf).fresh hfail hw s₁ hs₁] at hx
            cases hx
          | true =>
            obtain ⟨s₂, hs₂, hlast⟩ := (hc.linked hf).last hfail hw
            cases hout'.symm.trans hs₂
            have hx₁ : x.1 = w.prevID := by
              have hmap : s₁.ids.getLast? = some x.1 := by
                rw [OutStream.ids, List.getLast?_map, hx]
                rfl
              exact Option.some.inj (hmap.symm.trans hlast)
            have hprops : ((carryProps { w with inbox := rest } fwd).encoded fwd).properties =
              fwd.obj.properties := rfl
            have hafter := hc.next_of_stays hin hlag hfail hw (hnext hw).2 x.2 hprops
            rwa [← hx₁] at hafter
        | fresh =>
          cases hs₁
          cases hx
    · exact hready hr s (streams_closeOut w₁ (.reset .deliveryTimeout) ▸ hs)
    · exact hready hr s (streams_closeOut w₁ (.reset .internalError) ▸ hs)

theorem Continuous.handle (hc : w.Continuous h) (hf : w.finished = false)
    (hlag : w.lagExceeded = false) (hin : w.inbox = fwd :: rest) (fate : Fate) :
    ({ w with inbox := rest }.handle fwd fate).Continuous h := by
  obtain ⟨w', hw', hstep, hl, hinbox, -⟩ := dequeue_step (hc.linked hf) fwd rest fate
  rw [hw']
  obtain ⟨hpos, hclosed⟩ := hstep.outside
  -- behind what was there, the line is as before
  have hbehind : ((fwd.absID, fwd.follows) :: rest.map fun fwd => (fwd.absID, fwd.follows)).IsChain
      (Marked h) := by
    have hchained := hc.chained
    rw [line, hin] at hchained
    exact (isChain_append.mp hchained).2.1
  have hlast : ∀ a ∈ w'.line.getLast?, ∃ b ∈ w.line.getLast?, b.1 = a.1 := by
    rw [line, line, hinbox, hin]
    exact same_last (hstep.line hlag)
  refine ⟨fun _ => hl, ?_, fun hcl pos hp a ha => ?_, hc.streams_step hf hin hlag hstep⟩
  · rw [line, hinbox]
    rcases hstep.line hlag with heq | heq
    · rw [heq]
      exact isChain_marked_cons hbehind rfl
    · rw [heq]
      exact hbehind.tail
  · obtain ⟨b, hb, hba⟩ := hlast a ha
    rw [← hba]
    refine hc.tail ?_ pos (hpos ▸ hp) b hb
    by_contra hopen
    rw [hclosed (by simpa using hopen)] at hcl
    cases hcl

theorem streams_finish (w : Writer) : w.finish.streams = w.streams := by
  show (w.finishStream.closeOut (.reset .cancelled)).streams = w.streams
  unfold finishStream
  split_ifs <;> simp only [streams_closeOut] <;> rfl

theorem Continuous.finish (hc : w.Continuous h) : w.finish.Continuous h := by
  obtain ⟨hpos, hclosed⟩ := w.finish_outside
  have hline : w.finish.line = w.line := by
    show w.finishStream.line = w.line
    unfold finishStream
    split_ifs <;> rfl
  refine ⟨fun hf => absurd hf nofun, hline ▸ hc.chained, fun hcl pos hp a ha => ?_,
    w.streams_finish ▸ hc.streams⟩
  rw [hline] at ha
  refine hc.tail ?_ pos (hpos ▸ hp) a ha
  by_contra hopen
  rw [hclosed (by simpa using hopen)] at hcl
  cases hcl

theorem Continuous.inv : WriterInv fun w h _ => w.Continuous h where
  new hdr inboxCap maxDrops _ hnil := hnil ▸ .new hdr inboxCap maxDrops
  numbered _ hc := hc.frame rfl (List.Subset.refl _) rfl rfl fun hcl => hcl
  mono _ hc := hc
  offer o obj first _ hc := hc.offered o obj first
  close reset code _ hc := hc.close reset code
  dequeue fate hf hlag hin hc := hc.handle hf hlag hin fate
  finish _ _ _ hc := hc.finish

end Writer

namespace Traced

open World

/-- **Only the next Object stays on a stream**: in every run, where Object `y` stands directly
    after Object `x` on a stream of a writer, it is the next in number, or its Prior Object ID Gap
    covers exactly what lies between, or both were read from one inbound stream and every Object
    read from it between them was refused for this subscriber. -/
theorem only_next_object_stays {cfg : WriterSet.Config} {cache : ObjectCache} {as : List Action}
    {t : Traced} (hrun : Lib.run step (init cfg cache) as = some t) {i : SetID} {sub : SubID}
    {w : Writer} (hw : (t.world.sets i).writers sub = some (some w)) {s : OutStream}
    (hs : s ∈ w.streams) {before after : List (UInt64 × SubgroupObject)}
    {x y : UInt64 × SubgroupObject} (hxy : s.written = before ++ x :: y :: after)
    (hx : x.1 < maxUint64) :
    y.1.toNat = x.1.toNat + 1 ∨
    (x.1 < y.1 ∧ priorObjectIDGap y.2.properties = some (y.1 - x.1 - 1)) ∨
    (x.1 < y.1 ∧ ReadNext (t.offers i sub) x.1 y.1) := by
  have hc : w.Continuous (t.offers i sub) := Writer.Continuous.inv.holds hrun hw
  have hnext : NextAfter (t.offers i sub) x y :=
    isChain_iff_forall_rel_of_append_cons_cons.mp (hc.streams s hs) hxy
  rcases hnext with hone | ⟨hlt, hgap | hread⟩
  · left
    rw [hone]
    exact toNat_add_one hx
  · exact .inr (.inl ⟨hlt, hgap⟩)
  · exact .inr (.inr ⟨hlt, hread⟩)

/-- Object 5 is refused between Objects 0 and 9, which stay on one stream. -/
theorem only_next_object_stays_filtered :
    ∃ (t : Traced) (w : Writer) (s : OutStream), s ∈ w.streams ∧
      s.written.map Prod.fst = [0, 9] ∧ ReadNext (t.offers 0 0) 0 9 := by
  have hrun : (Lib.run step (init ⟨8, 0⟩ (.new 4 0))
      ([.register 0] ++ opening 0 {} ++ reading 0 0 ++ [.header 0 5 {} fun _ => true, .claim 0 0,
        .forward 0 0 fun _ => .skipObject] ++ reading 0 9 ++
        [.dequeue 0 0 {}, .dequeue 0 0 {}])).map
      (fun t => ((t.world.sets 0).writers 0).join.any fun w => w.streams.any fun s =>
        s.written = [(0, {}), (9, { objectIDDelta := 8 })]) = some true := by
    decide +kernel
  obtain ⟨t, ht, heq⟩ := Option.map_eq_some_iff.mp hrun
  rw [Option.any_eq_true] at heq
  obtain ⟨w, hw, heq⟩ := heq
  obtain ⟨s, hs, heq⟩ := any_eq_true.mp heq
  have hwritten : s.written = [] ++ (0, ({} : SubgroupObject)) ::
    (9, { objectIDDelta := 8 }) :: [] := of_decide_eq_true heq
  have hw' : (t.world.sets 0).writers 0 = some (some w) := Option.join_eq_some_iff.mp hw
  refine ⟨t, w, s, hs, by rw [hwritten]; rfl, ?_⟩
  rcases only_next_object_stays ht hw' hs hwritten (by decide) with hone | ⟨-, hgap⟩ | ⟨-, hread⟩
  · exact absurd hone (by decide)
  · exact absurd hgap (by decide)
  · exact hread

end Traced
end MoqGo.Relay
