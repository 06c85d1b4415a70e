import MoqGo.Relay.Fanout.Each
import MoqGo.Relay.Fanout.Streams

/-!
# The stream a FIN goes on

A writer that lost nothing writes exactly what was handed to it, in the order it was handed, and
its last stream ends with a FIN. **The last stream holds the Object handed last, not the
highest**: contributors that run at different speeds may hand a lower Object after a higher one,
and a receiver that takes the FIN for the end of the Subgroup then finds the higher one beyond
it (`fin_below_written`). Where the Object handed last is also the highest (`LastIsHighest`),
the FIN stands after every Object written (`fin_after_written`), and only there
(`not_lastIsHighest_iff`). It is the highest wherever contributors hand over in order
(`lastIsHighest_of_handsInOrder`).

`Carries` is what ties a writer to the Objects handed to it. `live` is whether contributors can
still reach the writer: one that was closed in order is out of their reach, so nothing that is
handed to it is lost unnoticed.
-/

namespace MoqGo.Relay

open Message List

namespace Writer

/-! ## A writer and what was handed to it -/

def Clean (w : Writer) : Prop :=
  w.incomplete = false ∧ w.writeFailed = false ∧ w.inboundReset = false ∧ w.lagExceeded = false

/-- The Object IDs written, stream after stream. -/
def written (w : Writer) : List UInt64 := w.streams.flatMap OutStream.ids

/-- Writer `w` was handed the Objects `h`. -/
structure Carries (w : Writer) (h : List UInt64) (live : Prop) : Prop where
  linked : w.finished = false → w.Linked
  nonempty : w.finished = false → w.writeFailed = false → w.out.isSome = true → w.hasWritten = true
  last : h.getLast? = if w.hasAdmitted then some w.lastAdmitted else none
  /-- First in, first out. -/
  fifo : w.finished = false → w.Clean → h = w.written ++ w.inbox.map FwdObject.absID
  closed : w.finished = false → w.Clean → w.closed = true → ¬ live
  reset : w.inboundReset = true → w.closeCalled = true
  /-- A FIN stands after every Object written. -/
  fin : ∀ s, (s, StreamEnd.fin) ∈ w.past → w.finished = true ∧
    ∃ n, s.ids.getLast? = some n ∧ ∀ id ∈ w.written, id ≤ n

theorem Carries.new (hdr : SubgroupHeader) (inboxCap maxDrops seq : Nat) (live : Prop) :
    Carries { hdr := hdr, inboxCap := inboxCap, maxDropsBeforeReset := maxDrops, seq := seq } []
      live := by
  refine ⟨fun _ => ⟨fun _ h => absurd h (by simp), fun _ _ s h => absurd h (by simp)⟩, ?_, rfl,
    fun _ _ => rfl, ?_, nofun, ?_⟩
  · intro _ _ h
    cases h
  · intro _ _ h
    cases h
  · intro s h
    cases h

theorem Carries.mono {w : Writer} {h : List UInt64} {live live' : Prop} (hc : w.Carries h live)
    (hl : live' → live) : w.Carries h live' :=
  ⟨hc.linked, hc.nonempty, hc.last, hc.fifo, fun hf hw hcl => mt hl (hc.closed hf hw hcl),
    hc.reset, hc.fin⟩

def streamState (w : Writer) :
    Option OutStream × List (OutStream × StreamEnd) × UInt64 × Bool × Bool × Bool :=
  (w.out, w.past, w.prevID, w.hasWritten, w.writeFailed, w.finished)

theorem Linked.of_streamState {w w' : Writer} (hl : w.finished = false → w.Linked)
    (hs : w'.streamState = w.streamState) (hf : w'.finished = false) : w'.Linked := by
  simp only [streamState, Prod.mk.injEq] at hs
  obtain ⟨hout, -, hprev, hhas, hfail, hfin⟩ := hs
  have hl := hl (hfin ▸ hf)
  refine ⟨?_, ?_⟩
  · rw [hfail, hhas, hout, hprev]
    exact hl.last
  · rw [hfail, hhas, hout]
    exact hl.fresh

theorem streams_of_streamState {w w' : Writer} (hs : w'.streamState = w.streamState) :
    w'.streams = w.streams := by
  simp only [streamState, Prod.mk.injEq] at hs
  rw [streams, streams, hs.1, hs.2.1]

theorem Carries.of_streamState {w w' : Writer} {h h' : List UInt64} {live live' : Prop}
    (hc : w.Carries h live) (hs : w'.streamState = w.streamState)
    (hlast : h'.getLast? = if w'.hasAdmitted then some w'.lastAdmitted else none)
    (hfifo : w'.finished = false → w'.Clean → h' = w.written ++ w'.inbox.map FwdObject.absID)
    (hclosed : w'.finished = false → w'.Clean → w'.closed = true → ¬ live')
    (hreset : w'.inboundReset = true → w'.closeCalled = true) : w'.Carries h' live' := by
  have hwritten : w'.written = w.written := by
    rw [written, written, streams_of_streamState hs]
  have hlinked := Linked.of_streamState hc.linked hs
  simp only [streamState, Prod.mk.injEq] at hs
  obtain ⟨hout, hpast, -, hhas, hfail, hfin⟩ := hs
  refine ⟨hlinked, ?_, hlast, hwritten ▸ hfifo, hclosed, hreset, ?_⟩
  · rw [hfin, hfail, hout, hhas]
    exact hc.nonempty
  · intro s hs
    rw [hwritten, hfin]
    exact hc.fin s (hpast ▸ hs)

/-! ## What contributors do -/

section Contributors

variable {w : Writer} {h : List UInt64} {live : Prop}

theorem Carries.markIncomplete (hc : w.Carries h live) (code : StreamResetCode) :
    (w.markIncomplete code).Carries h live :=
  hc.of_streamState rfl hc.last (fun _ hw => absurd hw.1 nofun) (fun _ hw => absurd hw.1 nofun)
    hc.reset

theorem Carries.close (hc : w.Carries h live) (reset : Bool) (hreset : reset = false → ¬ live)
    (code : StreamResetCode) : (w.close reset code).Carries h live := by
  unfold Writer.close
  split_ifs with hcalled
  · exact hc
  · refine hc.of_streamState rfl hc.last ?_ (fun _ hw _ => hreset hw.2.2.1) (fun _ => rfl)
    intro hf hw
    -- the mark the first call sets was not set
    have hr : w.inboundReset = false := by
      by_contra hr
      exact hcalled (hc.reset (by simpa using hr))
    exact hc.fifo hf ⟨hw.1, hw.2.1, hr, hw.2.2.2⟩

theorem Carries.skip (hc : w.Carries h live) (v : ForwardVerdict) (objectID : UInt64) :
    (w.skip v objectID).Carries h live := by
  cases v with
  | forward => exact hc
  | skipObject => exact hc.markIncomplete .cancelled
  | skipPaused => exact hc.markIncomplete .cancelled
  | skipGroup => exact hc.close true nofun .cancelled
  | skipEnded => exact hc.close true nofun .cancelled
  | skipBeforeStart =>
    unfold Writer.skip
    split_ifs
    · exact hc.markIncomplete .cancelled
    · exact hc

theorem Carries.publish {fwd : FwdObject} (hl : live) (hc : w.Carries h live) (pos : InboundPos) :
    ({ w with lastAdmitted := fwd.absID, hasAdmitted := true, lastPos := some pos }.publish
      fwd).Carries (h ++ [fwd.absID]) live := by
  unfold Writer.publish
  split_ifs with hclosed hroom
  · refine hc.of_streamState rfl (by simp) ?_ hc.closed hc.reset
    intro hf hw
    exact absurd hl (hc.closed hf hw hclosed)
  · refine hc.of_streamState rfl (by simp) ?_ hc.closed hc.reset
    intro hf hw
    rw [hc.fifo hf hw]
    simp
  · -- the inbox is full: the Object is lost, and the writer marked
    have hdrop : ({ w with
        lastAdmitted := fwd.absID
        hasAdmitted := true
        lastPos := none
        drops := w.drops + 1 }.markIncomplete .excessiveLoad).Carries (h ++ [fwd.absID]) live :=
      hc.of_streamState rfl (by simp [Writer.markIncomplete])
        (fun _ hw => absurd hw.1 (by simp [Writer.markIncomplete]))
        (fun _ hw => absurd hw.1 (by simp [Writer.markIncomplete])) hc.reset
    simp only
    split_ifs
    · exact hdrop.close true (by simp) .excessiveLoad
    · exact hdrop

/-- **`forward`** appends the Object to what was handed to the writer, or leaves it. -/
theorem Carries.forwardTo (hl : live) (hc : w.Carries h live) (v : ForwardVerdict)
    (pos : InboundPos) (objectID : UInt64) (obj : SubgroupObject) (first : Bool) (heard : Nat) :
    (WriterSet.forwardTo w v pos objectID obj first heard).Carries
      (if w.seq ≤ heard ∧ v = .forward then h ++ [objectID] else h) live := by
  unfold WriterSet.forwardTo
  split_ifs with hseq htaken htaken
  · exact absurd htaken.1 (Nat.not_le.mpr hseq)
  · exact hc
  · simp only [admitObject, htaken.2, if_true]
    exact hc.publish hl pos
  · have hv : v ≠ .forward := fun hv => htaken ⟨Nat.not_lt.mp hseq, hv⟩
    have hskip := hc.skip v objectID
    simp only [admitObject, hv, if_false, Bool.false_eq_true]
    split_ifs
    · exact hskip.of_streamState rfl hskip.last hskip.fifo hskip.closed hskip.reset
    · exact hskip

end Contributors

/-! ## What its goroutine does -/

variable {w : Writer}

theorem written_of_some {s : OutStream} (h : w.out = some s) :
    w.written = w.past.flatMap (fun p => p.1.ids) ++ s.ids := by
  simp [written, streams, h, flatMap_map]

theorem written_of_none (h : w.out = none) : w.written = w.past.flatMap fun p => p.1.ids := by
  simp [written, streams, h, flatMap_map]

theorem written_closeOut (w : Writer) (how : StreamEnd) : (w.closeOut how).written = w.written := by
  rw [written, streams_closeOut, written]

theorem written_write {s : OutStream} (h : w.out = some s) (fwd : FwdObject) :
    (w.write fwd .ok).written = w.written ++ [fwd.absID] := by
  have hout : (w.write fwd .ok).out = some (s.push fwd.absID (w.encoded fwd)) := by
    simp [write, h]
  rw [written_of_some hout, written_of_some h, OutStream.ids_push, ← append_assoc]
  rfl

theorem Ready.written {w₁ : Writer} {fwd : FwdObject} (h : Ready w fwd w₁) :
    w₁.written = w.written := by
  cases h with
  | stays hout hnext => rfl
  | @fresh code =>
    have hclosed := written_closeOut (w.carryProps fwd) (.reset code)
    rw [written_of_none rfl] at hclosed
    rw [written_of_some rfl]
    exact (append_nil _).trans hclosed

def marks (w : Writer) : List FwdObject × Bool × UInt64 × Bool × Bool :=
  (w.inbox, w.hasAdmitted, w.lastAdmitted, w.inboundReset, w.closeCalled)

section Goroutine

variable {w w' : Writer} {fwd : FwdObject} {fate : Fate} {s : OutStream}

theorem HandleStep.marks (h : HandleStep w fwd fate w') : w'.marks = w.marks := by
  cases h with
  | lagging | drained | openFailed => rfl
  | @expired w₁ hlag hfail hready hexp =>
    have hmarks : w₁.marks = w.marks := by cases hready <;> rfl
    refine Eq.trans ?_ hmarks
    unfold dropExpired
    simp only
    split_ifs <;> rfl
  | @writes w₁ hlag hfail hready hexp =>
    have hmarks : w₁.marks = w.marks := by cases hready <;> rfl
    refine Eq.trans ?_ hmarks
    cases fate.write <;> rfl

theorem mem_past_closeOut {code : StreamResetCode}
    (h : (s, StreamEnd.fin) ∈ (w.closeOut (.reset code)).past) : (s, StreamEnd.fin) ∈ w.past := by
  simpa [closeOut] using h

theorem Ready.fin {w₁ : Writer} (h : Ready w fwd w₁) (hs : (s, StreamEnd.fin) ∈ w₁.past) :
    (s, StreamEnd.fin) ∈ w.past := by
  cases h with
  | stays => exact hs
  | fresh => exact mem_past_closeOut (w := w.carryProps fwd) hs

theorem HandleStep.fin (h : HandleStep w fwd fate w') (hs : (s, StreamEnd.fin) ∈ w'.past) :
    (s, StreamEnd.fin) ∈ w.past := by
  cases h with
  | lagging | drained => exact hs
  | openFailed => exact mem_past_closeOut (w := w.carryProps fwd) hs
  | @expired w₁ _ _ hready _ =>
    refine hready.fin ?_
    cases hw : w₁.hasWritten with
    | true =>
      rw [dropExpired_written hw] at hs
      exact hs
    | false =>
      rw [dropExpired_fresh hw] at hs
      exact mem_past_closeOut (w := w₁.markIncomplete .cancelled) hs
  | @writes w₁ _ _ hready _ =>
    refine hready.fin ?_
    cases hres : fate.write <;> rw [hres] at hs
    · exact hs
    · exact mem_past_closeOut (w := w₁) hs
    · exact mem_past_closeOut (w := w₁) hs

theorem Ready.flags {w₁ : Writer} (h : Ready w fwd w₁) :
    w₁.incomplete = w.incomplete ∧ w₁.inboundReset = w.inboundReset ∧
      w₁.lagExceeded = w.lagExceeded ∧ w₁.closed = w.closed := by
  cases h <;> exact ⟨rfl, rfl, rfl, rfl⟩

theorem HandleStep.clean (h : HandleStep w fwd fate w') (hw : w'.Clean) :
    w.Clean ∧ w'.closed = w.closed ∧ w'.written = w.written ++ [fwd.absID] := by
  obtain ⟨hinc, hfail', hreset, hlag'⟩ := hw
  cases h with
  | lagging hlag => cases hlag'
  | drained hlag hfail => exact absurd (hfail.symm.trans hfail') nofun
  | openFailed => cases hfail'
  | @expired w₁ _ _ hready _ =>
    cases hw : w₁.hasWritten with
    | true =>
      rw [dropExpired_written hw] at hinc
      cases hinc
    | false =>
      rw [dropExpired_fresh hw] at hinc
      cases hinc
  | @writes w₁ _ hfail hready _ =>
    cases hres : fate.write <;> rw [hres] at hinc hfail' hreset hlag'
    · obtain ⟨s, hs⟩ := hready.out_isSome
      obtain ⟨hinc₁, hreset₁, hlag₁, hclosed₁⟩ := hready.flags
      refine ⟨⟨hinc₁ ▸ hinc, hfail, hreset₁ ▸ hreset, hlag₁ ▸ hlag'⟩, hclosed₁, ?_⟩
      rw [written_write hs, hready.written]
    · cases hfail'
    · cases hfail'

theorem HandleStep.hasWritten (h : HandleStep w fwd fate w')
    (hne : w.writeFailed = false → w.out.isSome = true → w.hasWritten = true)
    (hfail' : w'.writeFailed = false) (hout : w'.out.isSome = true) : w'.hasWritten = true := by
  cases h with
  | lagging => exact hne hfail' hout
  | drained => exact hne hfail' hout
  | openFailed => cases hfail'
  | @expired w₁ _ _ hready _ =>
    cases hw : w₁.hasWritten with
    | true =>
      rw [dropExpired_written hw]
      exact hw
    | false =>
      rw [dropExpired_fresh hw] at hout
      cases hout
  | writes =>
    cases hres : fate.write <;> rw [hres] at hfail'
    · rfl
    · cases hfail'
    · cases hfail'

end Goroutine

variable {w w' : Writer}

theorem dequeue_step (hl : w.Linked) (fwd : FwdObject) (rest : List FwdObject) (fate : Fate) :
    ∃ w', { w with inbox := rest }.handle fwd fate = w' ∧
      HandleStep { w with inbox := rest } fwd fate w' ∧ w'.Linked ∧ w'.inbox = rest ∧
      w'.hasAdmitted = w.hasAdmitted ∧ w'.lastAdmitted = w.lastAdmitted ∧
      w'.inboundReset = w.inboundReset ∧ w'.closeCalled = w.closeCalled := by
  have hl' : Linked { w with inbox := rest } := ⟨hl.last, hl.fresh⟩
  have hstep := handle_step hl' fwd fate
  have hmarks := hstep.marks
  simp only [marks, Prod.mk.injEq] at hmarks
  exact ⟨_, rfl, hstep, hl'.step hstep, hmarks⟩

/-- **A pass of the loop** moves the first Object of the inbox to what was written. -/
theorem Carries.handle {h : List UInt64} {live : Prop} {fwd : FwdObject} {rest : List FwdObject}
    (hc : w.Carries h live) (hf : w.finished = false) (hin : w.inbox = fwd :: rest) (fate : Fate) :
    ({ w with inbox := rest }.handle fwd fate).Carries h live := by
  obtain ⟨w', hw', hstep, hl, hinbox, hhas, hlast, hreset, hcalled⟩ :=
    dequeue_step (hc.linked hf) fwd rest fate
  rw [hw']
  refine ⟨fun _ => hl, fun _ => hstep.hasWritten (hc.nonempty hf), ?_, ?_, ?_, ?_, ?_⟩
  · rw [hhas, hlast]
    exact hc.last
  · intro _ hw
    obtain ⟨hclean, -, hwritten⟩ := hstep.clean hw
    rw [hc.fifo hf hclean, hwritten, hinbox, hin]
    exact append_cons _ _ _
  · intro _ hw hclosed
    obtain ⟨hclean, heq, -⟩ := hstep.clean hw
    exact hc.closed hf hclean (heq ▸ hclosed)
  · rw [hreset, hcalled]
    exact hc.reset
  · intro s hs
    have := (hc.fin s (hstep.fin hs)).1
    exact absurd (hf.symm.trans this) nofun

/-- `finishStream` gets to the FIN. -/
def endsWithFin (w : Writer) : Bool :=
  !w.lagExceeded && !w.dropCapped && !w.writeFailed && !w.inboundReset && !w.incomplete &&
    w.out.isSome

/-- What `finishStream` does. -/
inductive FinishStep (w : Writer) : Writer → Prop
  | resets {code : StreamResetCode} {closed : Bool} :
      FinishStep w ({ w with closed := closed }.closeOut (.reset code))
  | nothing : FinishStep w w
  | fins (h : w.out.isSome = true → w.endsWithFin = true) : FinishStep w (w.closeOut .fin)

theorem finishStream_step (w : Writer) : FinishStep w w.finishStream := by
  unfold finishStream
  by_cases hlag : (w.lagExceeded || w.dropCapped) = true
  · rw [if_pos hlag]
    exact .resets
  split_ifs with hfail hreset hinc
  · exact .nothing
  · exact .resets
  · exact .resets
  · exact .fins (by simp_all [endsWithFin])

theorem FinishStep.marks (h : FinishStep w w') : w'.marks = w.marks := by
  cases h <;> rfl

theorem FinishStep.written (h : FinishStep w w') : w'.written = w.written := by
  cases h with
  | @resets code closed => exact written_closeOut { w with closed := closed } _
  | nothing => rfl
  | fins => exact written_closeOut w _

theorem FinishStep.fin {s : OutStream} (h : FinishStep w w') (hs : (s, StreamEnd.fin) ∈ w'.past) :
    (s, StreamEnd.fin) ∈ w.past ∨ w.endsWithFin = true ∧ w.out = some s := by
  cases h with
  | @resets code closed => exact .inl (mem_past_closeOut (w := { w with closed := closed }) hs)
  | nothing => exact .inl hs
  | fins hfin =>
    cases hout : w.out with
    | none => exact .inl (by simpa [closeOut, hout] using hs)
    | some s' =>
      refine Or.imp_right ?_ (show (s, StreamEnd.fin) ∈ w.past ∨ s = s' by
        simpa [closeOut, hout] using hs)
      rintro rfl
      exact ⟨hfin (by simp [hout]), rfl⟩

theorem finish_marks (w : Writer) : w.finish.marks = w.marks :=
  w.finishStream_step.marks

theorem finish_written (w : Writer) : w.finish.written = w.written :=
  (written_closeOut w.finishStream (.reset .cancelled)).trans w.finishStream_step.written

theorem mem_past_finish {s : OutStream} (h : (s, StreamEnd.fin) ∈ w.finish.past) :
    (s, StreamEnd.fin) ∈ w.past ∨ w.endsWithFin = true ∧ w.out = some s :=
  w.finishStream_step.fin (mem_past_closeOut (w := w.finishStream) h)

theorem mem_past_finish_of_fin {s : OutStream} (hfin : w.endsWithFin = true)
    (hout : w.out = some s) : (s, StreamEnd.fin) ∈ w.finish.past := by
  simp_all [endsWithFin, finish, finishStream, closeOut]

/-- A writer that gets to the FIN has written all it was handed, the last of it to the stream it
    closes. -/
theorem Carries.fin_last {h : List UInt64} {live : Prop} (hc : w.Carries h live)
    (hf : w.finished = false) (hend : w.lagExceeded = true ∨ w.closeCalled = true ∧ w.inbox = [])
    (hfin : w.endsWithFin = true) :
    ∃ s, w.out = some s ∧ s.ids.getLast? = some w.lastAdmitted ∧ h = w.written := by
  simp only [endsWithFin, Bool.and_eq_true, Bool.not_eq_true'] at hfin
  obtain ⟨⟨⟨⟨⟨hlag, -⟩, hfail⟩, hres⟩, hinc⟩, hsome⟩ := hfin
  have hempty : w.inbox = [] := (hend.resolve_left (by simp [hlag])).2
  have hfifo : h = w.written := by
    have := hc.fifo hf ⟨hinc, hfail, hres, hlag⟩
    rwa [hempty, map_nil, append_nil] at this
  obtain ⟨s, hs, hprev⟩ := (hc.linked hf).last hfail (hc.nonempty hf hfail hsome)
  have hgl : h.getLast? = some w.prevID := by
    rw [hfifo, written_of_some hs, List.getLast?_append, hprev]
    rfl
  rw [hc.last] at hgl
  split_ifs at hgl
  exact ⟨s, hs, hprev.trans hgl.symm, hfifo⟩

theorem Carries.finish {h : List UInt64} {live : Prop} (hc : w.Carries h live)
    (hf : w.finished = false) (hend : w.lagExceeded = true ∨ w.closeCalled = true ∧ w.inbox = [])
    (hlast : w.endsWithFin = true → ∀ id ∈ h, id ≤ w.lastAdmitted) : w.finish.Carries h live := by
  have hdone : ∀ {p : Prop}, w.finish.finished = false → p := fun h => absurd h nofun
  have hmarks := w.finish_marks
  simp only [marks, Prod.mk.injEq] at hmarks
  obtain ⟨-, hhas, hadm, hreset, hcalled⟩ := hmarks
  refine ⟨hdone, hdone, ?_, hdone, hdone, ?_, ?_⟩
  · rw [hhas, hadm]
    exact hc.last
  · rw [hreset, hcalled]
    exact hc.reset
  · intro s hs
    refine ⟨rfl, ?_⟩
    rcases mem_past_finish hs with hs | ⟨hfin, hout⟩
    · exact absurd (hf.symm.trans (hc.fin s hs).1) nofun
    · obtain ⟨s', hs', hids, hwritten⟩ := hc.fin_last hf hend hfin
      cases hout.symm.trans hs'
      refine ⟨w.lastAdmitted, hids, ?_⟩
      rw [finish_written, ← hwritten]
      exact hlast hfin

theorem Carries.kept : WriterKept
    (fun _ w (h : List (SubgroupKey × UInt64)) live => w.Carries (h.map Prod.snd) live) (· = [])
    fun w h => w.endsWithFin = true → ∀ f ∈ h, f.2 ≤ w.lastAdmitted where
  new _ inboxCap maxDrops live hnil := by
    subst hnil
    exact .new _ inboxCap maxDrops 0 live
  numbered _ hc := hc.of_streamState rfl hc.last hc.fifo hc.closed hc.reset
  mono hl hc := hc.mono hl
  close reset code hreset hc := hc.close reset hreset code
  dequeue fate hf _ hin hc := hc.handle hf hin fate
  finish hf hend hlast hc := by
    refine hc.finish hf hend fun hends id hmem => ?_
    obtain ⟨f, hf, rfl⟩ := mem_map.mp hmem
    exact hlast hends f hf

end Writer

/-! ## The writers of a set -/

namespace WriterSet

/-- Each writer was handed what `h` says, and nothing was handed where there is no writer. -/
def Carries (s : WriterSet) (h : SubID → List (SubgroupKey × UInt64)) (live : Prop) : Prop :=
  s.Each (fun _ w h live => w.Carries (h.map Prod.snd) live) (· = []) h live

variable {s : WriterSet} {h : SubID → List (SubgroupKey × UInt64)} {live : Prop}

theorem Carries.admitAgedOut {s' : WriterSet} {claim : Claim} {verdict : SubID → ForwardVerdict}
    {objectID : UInt64} {ok : Bool} (hc : s.Carries h live)
    (hadm : s.admitAgedOut claim verdict objectID = (s', ok)) : s'.Carries h live := by
  unfold WriterSet.admitAgedOut at hadm
  split_ifs at hadm <;> cases hadm
  · exact hc
  · exact hc
  · refine Each.mapWriters hc ?_ (fun _ _ hnil => hnil)
    intro sub w _ hw
    split_ifs
    · exact hw.markIncomplete _
    · exact hw.skip _ _

theorem Carries.forward (hl : live) (hc : s.Carries h live) (verdict : SubID → ForwardVerdict)
    (pos : InboundPos) (k : SubgroupKey) (objectID : UInt64) (obj : SubgroupObject)
    (claimed : Bool) (heard : Nat) :
    (s.forward verdict pos objectID obj claimed heard).Carries
      (fun sub => if s.hands verdict heard sub then h sub ++ [(k, objectID)] else h sub) live := by
  have hboard := s.claimFirst_board objectID claimed
  have hwriters : ((s.lower objectID).extendRun objectID).writers = s.writers :=
    congrArg Prod.snd hboard
  refine Each.mapWriters (Each.of_board hc hboard) ?_ ?_
  · intro sub w hw hcw
    rw [hwriters] at hw
    have := hcw.forwardTo hl (verdict sub) pos objectID obj
      (claimed && (!s.forwarded || decide (objectID < s.lowest))) heard
    simp only [hands, hw, Bool.and_eq_true, decide_eq_true_eq]
    split_ifs at this ⊢ <;> simpa using this
  · intro sub hnone hnil
    rw [hwriters] at hnone
    have hands : s.hands verdict heard sub = false := by
      rcases hw : s.writers sub with _ | _ | w
      · simp [hands, hw]
      · simp [hands, hw]
      · exact absurd hw (hnone w)
    rwa [hands]

end WriterSet

/-! ## Whole runs -/

namespace World

def Carried (W : World) : Prop :=
  EachWriter (fun _ w h live => w.Carries (h.map Prod.snd) live) (· = []) W W.handed

variable {W W' : World}

theorem Carried.forward (hi : Carried W) {c : ContribID} {ct : Contributor} {claim : Claim}
    {obj : SubgroupObject} {heard : Heard} (hc : W.contribs c = some ct)
    (hp : ct.phase = .claimed claim obj heard) (now : Nat) (verdict : SubID → ForwardVerdict) :
    Carried (W.forward c ct claim obj heard now verdict) := by
  have hatt : Attached (W.forward c ct claim obj heard now verdict) :=
    hi.attached.step (step_forward hc hp)
  obtain ⟨s, ok, hadm, hsets, hsub, -, hnext, -, hhanded⟩ :=
    W.forward_eq c ct claim obj heard now verdict
  have hset : ((W.sets ct.set).doneReading ct.objectID).Carries (W.handed ct.set)
    (W.Registered ct.set) := WriterSet.Each.of_board (hi.each ct.set) rfl
  refine hi.offers Writer.Carries.kept hatt hc (by simp [hp]) (fun hlive => ?_) hsets hsub hnext
    fun j hj => ?_
  · rw [hhanded]
    cases ok with
    | false => exact hset.admitAgedOut hadm
    | true =>
      obtain ⟨rfl, -⟩ := admitAgedOut_true hadm
      simp only [if_true, Function.update_self]
      exact hset.forward hlive verdict ⟨c, ct.seq⟩ ct.key ct.objectID obj ct.isTrueFirst heard.count
  · rw [hhanded]
    cases ok with
    | false => rfl
    | true => exact Function.update_of_ne hj _ _

/-- The writer that is about to end its last stream with a FIN was handed no Object above the one
    it was handed last. -/
def LastIsHighest (W : World) : Action → Prop
  | .finish i sub => ∀ w ∈ ((W.sets i).writers sub).join, w.endsWithFin = true →
    ∀ f ∈ W.handed i sub, f.2 ≤ w.lastAdmitted
  | _ => True

instance (W : World) (a : Action) : Decidable (W.LastIsHighest a) := by
  unfold LastIsHighest
  split <;> infer_instance

/-- **Every step keeps what writers carry**, if it sets no FIN below the highest Object. -/
theorem Carried.step {a : Action} (hi : Carried W) (hok : W.LastIsHighest a)
    (h : W.step a = some W') : Carried W' := by
  have hF : ∀ i sub w, a = .finish i sub → (W.sets i).writers sub = some (some w) →
      w.endsWithFin = true → ∀ f ∈ W.handed i sub, f.2 ≤ w.lastAdmitted := by
    rintro i sub w rfl hw
    exact hok w (by simp [hw])
  cases a with
  | forward c now verdict =>
    obtain ⟨ct, claim, obj, heard, hc, hp, rfl⟩ := claimed_of_forward h
    exact hi.forward hc hp now verdict
  | _ =>
    have hstep := step_of h
    rw [Carried, hstep.handed nofun]
    exact hi.quiet Writer.Carries.kept hstep nofun hF

/-! ## The condition -/

/-- A contributor hands an Object to a writer that was handed none above it. -/
def HandsInOrder (W : World) : Action → Prop
  | .forward c _ verdict => ∀ ct ∈ W.contribs c, ∀ sub, verdict sub = .forward →
    ∀ f ∈ W.handed ct.set sub, f.2 ≤ ct.objectID
  | _ => True

def InOrder (W : World) : Prop := ∀ i sub, (W.handed i sub).Pairwise fun f g => f.2 ≤ g.2

theorem InOrder.step {a : Action} (hi : InOrder W) (hok : W.HandsInOrder a)
    (h : W.step a = some W') : InOrder W' := by
  cases a with
  | forward c now verdict =>
    obtain ⟨ct, claim, obj, heard, hc, hp, rfl⟩ := claimed_of_forward h
    obtain ⟨s, ok, hadm, -, -, -, -, -, hhanded⟩ :=
      W.forward_eq c ct claim obj heard now verdict
    intro i sub
    rw [hhanded]
    split_ifs
    · by_cases hset : i = ct.set
      · subst hset
        rw [Function.update_self]
        split_ifs with hands
        · have hv : verdict sub = .forward := by
            unfold WriterSet.hands at hands
            split at hands <;> simp_all
          refine pairwise_append.mpr ⟨hi _ sub, pairwise_singleton _ _, ?_⟩
          simpa using fun k id hf => hok ct hc sub hv (k, id) hf
        · exact hi _ sub
      · rw [Function.update_of_ne hset]
        exact hi i sub
    · exact hi i sub
  | _ =>
    rw [InOrder, (step_of h).handed nofun]
    exact hi

theorem InOrder.lastIsHighest (ho : InOrder W) (hi : Carried W) (a : Action) :
    W.LastIsHighest a := by
  cases a with
  | finish i sub =>
    intro w hw _ f hf
    have hlast := ((hi.each i).writer (Option.join_eq_some_iff.mp hw)).last
    have hsome : some _ = _ := (getLast?_eq_some_getLast (ne_nil_of_mem hf)).symm
    rw [getLast?_map, ← hsome] at hlast
    split_ifs at hlast
    · exact Option.some.inj hlast ▸ (ho i sub).rel_getLast_of_rel_getLast_getLast hf UInt64.le_rfl
    · cases hlast
  | _ => trivial

/-- Where contributors hand over their Objects in order, the Object handed last is the highest. -/
theorem lastIsHighest_of_handsInOrder {cfg : WriterSet.Config} {cache : ObjectCache}
    {as : List Action} (hok : Lib.Along step HandsInOrder (init cfg cache) as) :
    Lib.Along step LastIsHighest (init cfg cache) as :=
  hok.of_inv (P := fun W => Carried W ∧ InOrder W)
    (fun _ _ _ hi ha h => ⟨hi.1.step (hi.2.lastIsHighest hi.1 _) h, hi.2.step ha h⟩)
    (fun _ a hi _ => hi.2.lastIsHighest hi.1 a) ⟨.init cfg cache fun _ _ => rfl, fun _ _ => .nil⟩

/-- **The condition is exact**: a step that does not meet it sets a FIN below an Object written. -/
theorem not_lastIsHighest_iff {cfg : WriterSet.Config} {cache : ObjectCache} {as : List Action}
    (hok : Lib.Along step LastIsHighest (init cfg cache) as)
    (hrun : Lib.run step (init cfg cache) as = some W) {a : Action} (h : W.step a = some W') :
    ¬ W.LastIsHighest a ↔ ∃ i sub w s n, (W'.sets i).writers sub = some (some w) ∧
      (s, StreamEnd.fin) ∈ w.past ∧ s.ids.getLast? = some n ∧ ∃ id ∈ w.written, n < id := by
  have hi : Carried W := Lib.run_inv_along (fun _ _ _ hi ha h => Carried.step hi ha h)
    (.init cfg cache fun _ _ => rfl) hok hrun
  constructor
  · intro hnot
    cases a with
    | finish i sub =>
      obtain ⟨w, hw, hf, hend, rfl⟩ := finish_of h
      simp only [LastIsHighest, hw, not_forall, UInt64.not_le] at hnot
      obtain ⟨w', hw', hfin, f, hmem, hlt⟩ := hnot
      cases hw'
      obtain ⟨s, hs, hids, hwritten⟩ := ((hi.each i).writer hw).fin_last hf hend hfin
      refine ⟨i, sub, w.finish, s, _, by simp [putWriter, putSet],
        Writer.mem_past_finish_of_fin hfin hs, hids, f.2, ?_, hlt⟩
      rw [Writer.finish_written, ← hwritten]
      exact mem_map_of_mem hmem
    | _ => exact absurd trivial hnot
  · rintro ⟨i, sub, w, s, n, hw, hs, hn, id, hid, hlt⟩ hyes
    obtain ⟨-, m, hm, hle⟩ := (((hi.step hyes h).each i).writer hw).fin s hs
    cases hn.symm.trans hm
    exact absurd (hle id hid) (UInt64.not_le.mpr hlt)

/-! ## The result -/

/-- **A FIN stands after every Object written**, in any interleaving in which no writer gets to
    its FIN with an Object handed to it above the one handed last. -/
theorem fin_after_written {cfg : WriterSet.Config} {cache : ObjectCache} {as : List Action}
    {W : World} (hok : Lib.Along step LastIsHighest (init cfg cache) as)
    (hrun : Lib.run step (init cfg cache) as = some W) {i : SetID} {sub : SubID} {w : Writer}
    (hw : (W.sets i).writers sub = some (some w)) {s : OutStream}
    (hs : (s, StreamEnd.fin) ∈ w.past) :
    ∃ n, s.ids.getLast? = some n ∧ ∀ t ∈ w.streams, ∀ id ∈ t.ids, id ≤ n := by
  have hi : Carried W := Lib.run_inv_along (fun _ _ _ hi ha h => Carried.step hi ha h)
    (.init cfg cache fun _ _ => rfl) hok hrun
  obtain ⟨-, n, hn, hle⟩ := ((hi.each i).writer hw).fin s hs
  refine ⟨n, hn, ?_⟩
  intro t ht id hid
  exact hle id (mem_flatMap.mpr ⟨t, ht, hid⟩)

/-- Two contributors of Subgroup 0 of Group 0, with Objects 0, 1 and `ids`, both ending with a
    FIN. The first, a replay from Object 1, runs ahead: subscriber 0 is handed Object 1, then
    Object 0, then the others. -/
def straggling (ids : List UInt64) : List Action :=
  List.flatten
    [[.register 0], opening 0 { replayingSubgroup := true }, [.acquire 1 {} none],
      reading 0 1, reading 1 0, rereading 1 1, ids.flatMap (reading 1), ids.flatMap (rereading 0),
      [.eof 0 0, .leave 0 fun _ => false, .eof 1 0, .leave 1 fun _ => false],
      List.replicate (2 + ids.length) (.dequeue 0 0 {}), [.finish 0 0]]

/-- The streams of subscriber 0, with how they ended. -/
def streamEnds (W : World) : List (List UInt64 × StreamEnd) :=
  (((W.sets 0).writers 0).join.map fun w => w.past.map fun p => (p.1.ids, p.2)).getD []

theorem fin_after_written_straggling :
    (Lib.run step (init ⟨8, 0⟩ (.new 4 0)) (straggling [2])).map streamEnds =
      some [([1], .reset .cancelled), ([0], .reset .cancelled), ([2], .fin)] ∧
    ∀ W w s, Lib.run step (init ⟨8, 0⟩ (.new 4 0)) (straggling [2]) = some W →
      (W.sets 0).writers 0 = some (some w) → (s, StreamEnd.fin) ∈ w.past →
      ∃ n, s.ids.getLast? = some n ∧ ∀ t ∈ w.streams, ∀ id ∈ t.ids, id ≤ n := by
  refine ⟨by decide +kernel, ?_⟩
  intro W w s hrun hw hs
  exact fin_after_written (by decide +kernel) hrun hw hs

/-- The FIN stands after Object 0, and Object 1 was written before. -/
theorem fin_below_written :
    (Lib.run step (init ⟨8, 0⟩ (.new 4 0)) (straggling [])).map streamEnds =
      some [([1], .reset .cancelled), ([0], .fin)] := by
  decide +kernel

end World
end MoqGo.Relay
