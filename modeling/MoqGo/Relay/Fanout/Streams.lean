import MoqGo.Lib.Runs
import MoqGo.Relay.Fanout.Writer

/-!
# What a writer puts on its streams

A writer re-encodes each Object ID against the stream it goes on, so the receiver can resolve
the deltas only if the IDs on a stream ascend. `isNextObject` is what keeps them ascending,
and it does, except where `prevID + 1` wraps: **Object 0 counts as next after Object `2⁶⁴-1`**.
It then stays on the stream, with a delta of 0 the receiver answers with `ErrIDOverflow`.

* `HandleStep`: everything one pass of the writer's loop can do.
* `streams_wellFormed_iff`: over any Objects dequeued, with any fates, every stream is
  well formed if and only if no pass of the loop wraps.
-/

namespace MoqGo.Relay

open Message List

/-! ## Streams -/

namespace OutStream

/-- The Object IDs ascend, and a receiver resolves the deltas to them. -/
def WellFormed (s : OutStream) : Prop :=
  s.ids.Pairwise (· < ·) ∧ ({} : IncomingSubgroupStream).readObjectIDs s.deltas = .ok s.ids

instance (s : OutStream) : Decidable s.WellFormed := inferInstanceAs (Decidable (_ ∧ _))

@[simp] theorem ids_push (s : OutStream) (id : UInt64) (obj : SubgroupObject) :
    (s.push id obj).ids = s.ids ++ [id] := by
  simp [ids, push]

@[simp] theorem deltas_push (s : OutStream) (id : UInt64) (obj : SubgroupObject) :
    (s.push id obj).deltas = s.deltas ++ [obj.objectIDDelta] := by
  simp [deltas, push]

variable {s : OutStream} {id : UInt64} {obj : SubgroupObject}

theorem wellFormed_nil (h : s.written = []) : s.WellFormed := by
  simp [WellFormed, ids, deltas, h, IncomingSubgroupStream.readObjectIDs]

theorem wellFormed_push_first (h : s.written = []) (hd : obj.objectIDDelta = id) :
    (s.push id obj).WellFormed := by
  simp [WellFormed, ids, deltas, push, h, hd, IncomingSubgroupStream.readObjectIDs,
    IncomingSubgroupStream.readObjectHeader]

theorem nextSubgroupObjectID_delta {prev : UInt64} (h : prev < id) :
    nextSubgroupObjectID prev (id - prev - 1) = .ok id := by
  have hlt := UInt64.lt_iff_toNat_lt.mp h
  have hd : (id - prev - 1).toNat = id.toNat - prev.toNat - 1 := by
    rw [UInt64.toNat_sub_of_le _ _ (by grind), UInt64.toNat_sub_of_le _ _ (by grind)]
    rfl
  have hbound := id.toNat_lt
  rw [nextSubgroupObjectID, if_pos (by omega)]
  congr 1
  grind

theorem WellFormed.push (hw : s.WellFormed) {last : UInt64} (hlast : s.ids.getLast? = some last)
    (hlt : last < id) (hd : obj.objectIDDelta = id - last - 1) : (s.push id obj).WellFormed := by
  obtain ⟨l, hl⟩ := List.getLast?_eq_some_iff.mp hlast
  refine ⟨?_, ?_⟩
  · rw [ids_push, pairwise_append]
    refine ⟨hw.1, pairwise_singleton _ _, ?_⟩
    intro a ha b hb
    rw [mem_singleton] at hb
    subst hb
    rw [hl, mem_append, mem_singleton] at ha
    have hl' := hw.1
    rw [hl, pairwise_append] at hl'
    rcases ha with ha | rfl
    · exact UInt64.lt_trans (hl'.2.2 a ha last (by simp)) hlt
    · exact hlt
  · rw [ids_push, deltas_push]
    refine IncomingSubgroupStream.readObjectIDs_concat (t := ⟨id, true⟩) hw.2 ?_
    rw [hl, IncomingSubgroupStream.after_concat, hd]
    simp [IncomingSubgroupStream.readObjectHeader, nextSubgroupObjectID_delta hlt]

theorem not_wellFormed_of_push {t : OutStream} {last : UInt64} (hlast : s.ids.getLast? = some last)
    (hle : id ≤ last) (hpre : (s.push id obj).written <+: t.written) : ¬ t.WellFormed := by
  intro ht
  have hids : (s.push id obj).ids <+: t.ids := hpre.map Prod.fst
  have hp := ht.1.sublist hids.sublist
  obtain ⟨l, hl⟩ := List.getLast?_eq_some_iff.mp hlast
  rw [ids_push, pairwise_append] at hp
  have hlt := hp.2.2 last (by simp [hl]) id (by simp)
  exact absurd hlt (UInt64.not_lt.mpr hle)

end OutStream

namespace Writer

/-- The writer without the marks that contributors leave on it. -/
def unmarked (w : Writer) : Writer :=
  { w with
    closed := false
    closeCalled := false
    inboundReset := false
    inboundResetCode := .internalError
    incomplete := false
    incompleteCode := .internalError }

theorem close_unmarked (w : Writer) (reset : Bool) (code : StreamResetCode) :
    (w.close reset code).unmarked = w.unmarked := by
  unfold Writer.close
  split_ifs <;> rfl

theorem skip_unmarked (w : Writer) (v : ForwardVerdict) (id : UInt64) :
    (w.skip v id).unmarked = w.unmarked := by
  cases v with
  | forward | skipObject | skipPaused => rfl
  | skipGroup | skipEnded => exact w.close_unmarked true .cancelled
  | skipBeforeStart =>
    simp only [skip]
    split_ifs <;> rfl

/-! ## One pass of the loop -/

@[simp] theorem streams_closeOut (w : Writer) (how : StreamEnd) :
    (w.closeOut how).streams = w.streams := by
  cases h : w.out <;> simp [streams, closeOut, h]

/-- The stream and the Object written last hang together, until a write fails: an Object was
    written on the open stream if and only if `hasWritten`, and `prevID` is the last of them. -/
structure Linked (w : Writer) : Prop where
  last : w.writeFailed = false → w.hasWritten = true →
    ∃ s, w.out = some s ∧ s.ids.getLast? = some w.prevID
  fresh : w.writeFailed = false → w.hasWritten = false → ∀ s, w.out = some s → s.written = []

theorem Linked.new (hdr : SubgroupHeader) (inboxCap maxDrops : Nat) :
    Linked { hdr := hdr, inboxCap := inboxCap, maxDropsBeforeReset := maxDrops } :=
  ⟨fun _ h => absurd h (by simp), fun _ _ s h => absurd h (by simp)⟩

variable {w w₁ w' : Writer} {fwd : FwdObject} {fate : Fate}

theorem Linked.out_isSome (hl : w.Linked) (hfail : w.writeFailed = false)
    (hw : w.hasWritten = true) :
    w.out.isNone = false := by
  obtain ⟨s, hs, -⟩ := hl.last hfail hw
  rw [hs]
  rfl

/-- The stream `fwd` goes on: the open one, if `fwd` is the next Object on it, or a fresh one. -/
inductive Ready (w : Writer) (fwd : FwdObject) : Writer → Prop
  | stays {s : OutStream} (hout : w.out = some s)
      (hnext : w.hasWritten = true →
        w.needProps fwd = false ∧ isNextObject fwd w.prevID w.dropped = true) :
      Ready w fwd (w.carryProps fwd)
  | fresh {code : StreamResetCode} :
      Ready w fwd (((w.carryProps fwd).closeOut (.reset code)).opened fwd.first)

/-- What one pass of the loop can do. -/
inductive HandleStep (w : Writer) (fwd : FwdObject) (fate : Fate) : Writer → Prop
  | lagging (hlag : fate.lagging = true) : HandleStep w fwd fate { w with lagExceeded := true }
  | drained (hlag : fate.lagging = false) (hfail : w.writeFailed = true) : HandleStep w fwd fate w
  | openFailed {code : StreamResetCode} (hlag : fate.lagging = false)
      (hfail : w.writeFailed = false) :
      HandleStep w fwd fate ((w.carryProps fwd).closeOut (.reset code)).failWrites
  | expired {w₁ : Writer} (hlag : fate.lagging = false) (hfail : w.writeFailed = false)
      (hready : Ready w fwd w₁) (hexp : fate.expired = true) :
      HandleStep w fwd fate { w₁.dropExpired with dropped := true }
  | writes {w₁ : Writer} (hlag : fate.lagging = false) (hfail : w.writeFailed = false)
      (hready : Ready w fwd w₁) (hexp : fate.expired = false) :
      HandleStep w fwd fate (w₁.write fwd fate.write)

theorem ready_cases {ok : Bool} (hl : w.Linked) (hfail : w.writeFailed = false)
    (h : w.ready fwd fate = (w₁, ok)) :
    if ok then Ready w fwd w₁ else ∃ code, w₁ = (w.carryProps fwd).closeOut (.reset code) := by
  obtain ⟨cause, hcause⟩ : ∃ cause, w.reopenCause fwd = (w.carryProps fwd, cause) := ⟨_, rfl⟩
  have hout : (w.carryProps fwd).out = w.out := rfl
  unfold ready at h
  simp only [hcause, reopen, hout] at h
  cases hnone : w.out with
  | none =>
    -- the lazy first open: nothing was written, so there is no cause to open another
    have hw : w.hasWritten = false := by
      by_contra hw
      have := hl.out_isSome hfail (by simpa using hw)
      rw [hnone] at this
      cases this
    have hc : cause = none := by
      have := congrArg Prod.snd hcause
      simpa [reopenCause, hw] using this.symm
    cases hopens : fate.opens <;> simp [hnone, hc, hopens] at h <;> obtain ⟨rfl, rfl⟩ := h
    · exact ⟨_, rfl⟩
    · exact .fresh
  | some s =>
    cases cause with
    | some c =>
      cases hre : fate.reopens <;> simp [hnone, hre] at h <;> obtain ⟨rfl, rfl⟩ := h
      · exact ⟨_, rfl⟩
      · exact .fresh
    | none =>
      simp [hnone] at h
      obtain ⟨rfl, rfl⟩ := h
      refine .stays hnone ?_
      intro hw
      have := congrArg Prod.snd hcause
      simp only [reopenCause, hw, Bool.not_true, Bool.false_eq_true, if_false] at this
      split_ifs at this with hprops hnext
      exact ⟨by simpa using hprops, by simpa using hnext⟩

theorem handle_step (hl : w.Linked) (fwd : FwdObject) (fate : Fate) :
    HandleStep w fwd fate (w.handle fwd fate) := by
  unfold handle
  split
  · next hlag => exact .lagging hlag
  · next hlag =>
    rw [Bool.not_eq_true] at hlag
    split
    · next hfail => exact .drained hlag hfail
    · next hfail =>
      rw [Bool.not_eq_true] at hfail
      obtain ⟨w₁, ok, hready⟩ : ∃ w₁ ok, w.ready fwd fate = (w₁, ok) := ⟨_, _, rfl⟩
      have hc := ready_cases hl hfail hready
      rw [hready]
      cases ok with
      | false =>
        obtain ⟨code, rfl⟩ := hc
        exact .openFailed hlag hfail
      | true =>
        cases hexp : fate.expired with
        | true => exact .expired hlag hfail hc hexp
        | false => exact .writes hlag hfail hc hexp

theorem dropExpired_written (hw : w.hasWritten = true) :
    w.dropExpired = w.markIncomplete .cancelled :=
  if_pos hw

theorem dropExpired_fresh (hw : w.hasWritten = false) :
    w.dropExpired = (w.markIncomplete .cancelled).closeOut (.reset .cancelled) :=
  if_neg (by simp [markIncomplete, hw])

theorem Linked.ready (hl : w.Linked) (h : Ready w fwd w₁) : w₁.Linked := by
  cases h with
  | stays hout hnext => exact ⟨hl.last, hl.fresh⟩
  | fresh =>
    refine ⟨fun _ h => absurd h (by simp [opened]), ?_⟩
    intro _ _ s hs
    cases hs
    rfl

theorem Ready.out_isSome (h : Ready w fwd w₁) : ∃ s, w₁.out = some s := by
  cases h with
  | stays hout _ => exact ⟨_, hout⟩
  | fresh => exact ⟨_, rfl⟩

theorem Linked.step (hl : w.Linked) (h : HandleStep w fwd fate w') : w'.Linked := by
  cases h with
  | lagging => exact ⟨hl.last, hl.fresh⟩
  | drained => exact hl
  | openFailed => exact ⟨fun h => absurd h nofun, fun h => absurd h nofun⟩
  | @expired w₁ _ _ hready _ =>
    have hl₁ := hl.ready hready
    cases hw : w₁.hasWritten with
    | true =>
      rw [dropExpired_written hw]
      exact ⟨hl₁.last, hl₁.fresh⟩
    | false =>
      rw [dropExpired_fresh hw]
      refine ⟨fun _ h => absurd (hw.symm.trans h) nofun, ?_⟩
      intro _ _ s hs
      cases hs
  | @writes w₁ _ _ hready _ =>
    cases fate.write with
    | ok =>
      refine ⟨?_, fun _ h => absurd h nofun⟩
      intro _ _
      obtain ⟨s, hs⟩ := hready.out_isSome
      refine ⟨s.push fwd.absID (w₁.encoded fwd), ?_, ?_⟩
      · simp [write, hs]
      · simp [write]
    | deliveryTimeout | failed => exact ⟨fun h => absurd h nofun, fun h => absurd h nofun⟩

/-! ## When the Object IDs ascend -/

/-- **The pass that goes wrong**: Object 0, on an open stream whose last Object is `2⁶⁴-1`. -/
def Wraps (w : Writer) (a : FwdObject × Fate) : Prop :=
  w.writeFailed = false ∧ w.hasWritten = true ∧ w.prevID = maxUint64 ∧ a.1.absID = 0 ∧
    w.needProps a.1 = false ∧ a.2.lagging = false ∧ a.2.expired = false ∧ a.2.write = .ok

instance (w : Writer) (a : FwdObject × Fate) : Decidable (w.Wraps a) :=
  inferInstanceAs (Decidable (_ ∧ _))

theorem lt_of_isNextObject {prevID : UInt64} {dropped : Bool}
    (h : isNextObject fwd prevID dropped = true) :
    prevID < fwd.absID ∨ prevID = maxUint64 ∧ fwd.absID = 0 := by
  unfold isNextObject at h
  split_ifs at h with h₁ h₂ h₃
  · by_cases hmax : prevID = maxUint64
    · right
      rw [h₁, hmax]
      exact ⟨rfl, rfl⟩
    · left
      have : prevID ≠ 0xFFFFFFFFFFFFFFFF := hmax
      grind
  all_goals
    left
    simp only [Bool.or_eq_true, decide_eq_true_eq, not_or, UInt64.not_le] at h₂
    exact h₂.2

theorem mem_streams {s : OutStream} : s ∈ w.streams ↔ s ∈ w.past.map Prod.fst ∨ w.out = some s := by
  simp [streams]

theorem Ready.streams (h : Ready w fwd w₁) : ∀ s ∈ w₁.streams, s ∈ w.streams ∨ s.written = [] := by
  intro s hs
  cases h with
  | stays => exact .inl hs
  | @fresh code =>
    rcases mem_streams.mp hs with hs | hs
    · left
      rw [← streams_closeOut w (.reset code)]
      exact mem_streams.mpr (.inl hs)
    · cases hs
      exact .inr rfl

def StreamsWellFormed (w : Writer) : Prop := ∀ s ∈ w.streams, s.WellFormed

theorem StreamsWellFormed.step (hl : w.Linked) (hw : w.StreamsWellFormed)
    (hok : ¬ w.Wraps (fwd, fate)) (h : HandleStep w fwd fate w') : w'.StreamsWellFormed := by
  have ready_wf : ∀ {w₁}, Ready w fwd w₁ → w₁.StreamsWellFormed := by
    intro w₁ hready s hs
    rcases hready.streams s hs with hs | hs
    · exact hw s hs
    · exact OutStream.wellFormed_nil hs
  cases h with
  | lagging | drained => exact hw
  | @openFailed code _ _ =>
    intro s hs
    exact hw s (streams_closeOut w (.reset code) ▸ hs)
  | @expired w₁ _ _ hready _ =>
    intro s hs
    cases hw₁ : w₁.hasWritten with
    | true =>
      rw [dropExpired_written hw₁] at hs
      exact ready_wf hready s hs
    | false =>
      rw [dropExpired_fresh hw₁] at hs
      exact ready_wf hready s (streams_closeOut w₁ (.reset .cancelled) ▸ hs)
  | @writes w₁ hlag hfail hready hexp =>
    cases hwr : fate.write with
    | deliveryTimeout =>
      intro s hs
      exact ready_wf hready s (streams_closeOut w₁ (.reset .deliveryTimeout) ▸ hs)
    | failed =>
      intro s hs
      exact ready_wf hready s (streams_closeOut w₁ (.reset .internalError) ▸ hs)
    | ok =>
      obtain ⟨s, hs⟩ := hready.out_isSome
      have hswf := ready_wf hready s (mem_streams.mpr (.inr hs))
      intro t ht
      rcases mem_streams.mp ht with ht | ht
      · exact ready_wf hready t (mem_streams.mpr (.inl ht))
      · simp only [write, hs, Option.map_some] at ht
        cases ht
        cases hready with
        | fresh =>
          cases hs
          exact OutStream.wellFormed_push_first rfl rfl
        | stays hout hnext =>
          cases hw₁ : w.hasWritten with
          | false =>
            exact OutStream.wellFormed_push_first (hl.fresh hfail hw₁ s hs)
              (by simp [encoded, carryProps, hw₁])
          | true =>
            obtain ⟨hprops, hnext⟩ := hnext hw₁
            obtain ⟨s', hs', hlast⟩ := hl.last hfail hw₁
            cases hs.symm.trans hs'
            rcases lt_of_isNextObject hnext with hlt | ⟨hmax, hzero⟩
            · exact hswf.push hlast hlt (by simp [encoded, carryProps, hw₁])
            · refine absurd ?_ hok
              exact ⟨hfail, hw₁, hmax, hzero, hprops, hlag, hexp, hwr⟩

/-! ## Whole runs -/

/-- One pass of the loop, unless it was left for lag. -/
def pass (w : Writer) (a : FwdObject × Fate) : Option Writer :=
  if w.lagExceeded then none else some (w.handle a.1 a.2)

theorem pass_step {a : FwdObject × Fate} (hl : w.Linked) (h : w.pass a = some w') :
    HandleStep w a.1 a.2 w' := by
  unfold pass at h
  split_ifs at h
  cases h
  exact handle_step hl a.1 a.2

def Grows (w w' : Writer) : Prop :=
  ∀ s ∈ w.streams, ∃ t ∈ w'.streams, s.written <+: t.written

theorem Grows.of_subset (h : w.streams ⊆ w'.streams) : Grows w w' :=
  fun s hs => ⟨s, h hs, prefix_rfl⟩

theorem Grows.trans {w₂ w₃ : Writer} (h₁ : Grows w₁ w₂) (h₂ : Grows w₂ w₃) : Grows w₁ w₃ := by
  intro s hs
  obtain ⟨t, ht, hst⟩ := h₁ s hs
  obtain ⟨u, hu, htu⟩ := h₂ t ht
  exact ⟨u, hu, hst.trans htu⟩

theorem Ready.grows (h : Ready w fwd w₁) : Grows w w₁ := by
  cases h with
  | stays => exact .of_subset fun _ hs => hs
  | @fresh code =>
    apply Grows.of_subset
    intro s hs
    rw [← streams_closeOut w (.reset code)] at hs
    rcases mem_streams.mp hs with hs | hs
    · exact mem_streams.mpr (.inl hs)
    · cases hs

theorem grows_write {r : WriteResult} : Grows w (w.write fwd r) := by
  cases r with
  | ok =>
    intro s hs
    rcases mem_streams.mp hs with hs | hs
    · exact ⟨s, mem_streams.mpr (.inl hs), prefix_rfl⟩
    · refine ⟨s.push fwd.absID (w.encoded fwd), mem_streams.mpr (.inr ?_), prefix_append _ _⟩
      simp [write, hs]
  | deliveryTimeout | failed =>
    apply Grows.of_subset
    intro s hs
    rw [← streams_closeOut] at hs
    exact hs

theorem HandleStep.grows (h : HandleStep w fwd fate w') : Grows w w' := by
  cases h with
  | lagging | drained => exact .of_subset fun _ hs => hs
  | @openFailed code _ _ =>
    apply Grows.of_subset
    intro s hs
    rw [← streams_closeOut w (.reset code)] at hs
    exact hs
  | @expired w₁ _ _ hready _ =>
    refine hready.grows.trans (.of_subset ?_)
    intro s hs
    cases hw : w₁.hasWritten with
    | true =>
      rw [dropExpired_written hw]
      exact hs
    | false =>
      rw [dropExpired_fresh hw]
      rw [← streams_closeOut w₁ (.reset .cancelled)] at hs
      exact hs
  | writes _ _ hready _ => exact hready.grows.trans grows_write

theorem grows_run {as : List (FwdObject × Fate)} (hl : w.Linked) (h : Lib.run pass w as = some w') :
    Grows w w' := by
  have hinv : w'.Linked ∧ Grows w w' := by
    refine Lib.run_inv (P := fun w₁ => w₁.Linked ∧ Grows w w₁) ?_
      ⟨hl, .of_subset fun _ hs => hs⟩ h
    intro w₁ a w₂ hw₁ hstep
    have hs := pass_step hw₁.1 hstep
    exact ⟨hw₁.1.step hs, hw₁.2.trans hs.grows⟩
  exact hinv.2

theorem not_streamsWellFormed_of_wraps {a : FwdObject × Fate} (hl : w.Linked) (hwraps : w.Wraps a)
    (hstep : w.pass a = some w₁) (hgrows : Grows w₁ w') : ¬ w'.StreamsWellFormed := by
  obtain ⟨hfail, hw, hmax, hzero, hprops, hlag, hexp, hok⟩ := hwraps
  obtain ⟨s, hs, hlast⟩ := hl.last hfail hw
  have hnext : isNextObject a.1 w.prevID w.dropped = true := by
    unfold isNextObject
    rw [if_pos (by rw [hzero, hmax]; rfl)]
  have hready : w.ready a.1 a.2 = (w.carryProps a.1, true) := by
    have hout : (w.carryProps a.1).out = some s := hs
    simp [Writer.ready, reopenCause, hw, hprops, hnext, hout]
  have hhandle : w.handle a.1 a.2 = (w.carryProps a.1).write a.1 .ok := by
    simp [handle, hlag, hfail, hready, hexp, hok]
  unfold pass at hstep
  split_ifs at hstep
  rw [hhandle] at hstep
  cases hstep
  intro hall
  obtain ⟨t, ht, hpre⟩ := hgrows (s.push a.1.absID ((w.carryProps a.1).encoded a.1))
    (mem_streams.mpr (.inr (by simp [write, carryProps, hs])))
  exact OutStream.not_wellFormed_of_push hlast (by rw [hzero]; exact UInt64.zero_le) hpre
    (hall t ht)

/-- **Outbound streams are well formed, exactly when no pass wraps**: over any Objects dequeued
    in any order, with any fates, the Object IDs on every stream ascend and a receiver resolves
    the deltas to them if and only if Object 0 is never written after Object `2⁶⁴-1` on one
    stream. -/
theorem streams_wellFormed_iff (hdr : SubgroupHeader) (inboxCap maxDrops : Nat)
    {as : List (FwdObject × Fate)} {w' : Writer}
    (hrun : Lib.run pass
      { hdr := hdr, inboxCap := inboxCap, maxDropsBeforeReset := maxDrops } as = some w') :
    (∀ s ∈ w'.streams, s.WellFormed) ↔
      Lib.Along pass (fun w a => ¬ w.Wraps a)
        { hdr := hdr, inboxCap := inboxCap, maxDropsBeforeReset := maxDrops } as := by
  have hl := Linked.new hdr inboxCap maxDrops
  have hw : StreamsWellFormed
      { hdr := hdr, inboxCap := inboxCap, maxDropsBeforeReset := maxDrops } := by
    intro s hs
    exact absurd hs (by simp [streams])
  revert hl hw hrun
  generalize ({ hdr := hdr, inboxCap := inboxCap, maxDropsBeforeReset := maxDrops } : Writer) = w
  intro hrun hl hw
  refine ⟨?_, ?_⟩
  · intro hall
    -- along the run: the first pass that wraps would leave a broken stream in `w'`
    induction as generalizing w with
    | nil => trivial
    | cons a as ih =>
      obtain ⟨w₁, hstep, hrest⟩ := Lib.run_cons.mp hrun
      have hl₁ := hl.step (pass_step hl hstep)
      have hok : ¬ w.Wraps a := fun hwraps =>
        not_streamsWellFormed_of_wraps hl hwraps hstep (grows_run hl₁ hrest) hall
      refine ⟨hok, ?_⟩
      intro w₂ hstep₂
      cases hstep.symm.trans hstep₂
      exact ih w₁ hrest hl₁ (hw.step hl hok (pass_step hl hstep))
  · intro hok
    have hinv : w'.Linked ∧ w'.StreamsWellFormed := by
      refine Lib.run_inv_along (P := fun w => w.Linked ∧ w.StreamsWellFormed) ?_ ⟨hl, hw⟩ hok hrun
      intro w₁ a w₂ hw₁ hok₁ hstep
      have hs := pass_step hw₁.1 hstep
      exact ⟨hw₁.1.step hs, hw₁.2.step hw₁.1 hok₁ hs⟩
    exact hinv.2

/-- Object 5, and then Object 3 from a slower upstream: two streams. -/
theorem streams_wellFormed_straggler :
    ∃ w' : Writer,
      Lib.run pass { hdr := {}, inboxCap := 8, maxDropsBeforeReset := 0 }
        [({ obj := {}, absID := 5 }, {}), ({ obj := {}, absID := 3 }, {})] = some w' ∧
      w'.streams.map OutStream.ids = [[5], [3]] ∧ ∀ s ∈ w'.streams, s.WellFormed := by
  refine ⟨_, rfl, by decide, ?_⟩
  exact (@streams_wellFormed_iff {} 8 0
    [({ obj := {}, absID := 5 }, {}), ({ obj := {}, absID := 3 }, {})] _ rfl).mpr (by decide)

/-- Object 0 follows Object `2⁶⁴-1` onto its stream, and the receiver finds an ID overflow. -/
theorem streams_wrap :
    ∃ w' : Writer,
      Lib.run pass { hdr := {}, inboxCap := 8, maxDropsBeforeReset := 0 }
        [({ obj := {}, absID := maxUint64 }, {}), ({ obj := {}, absID := 0 }, {})] = some w' ∧
      ∃ s ∈ w'.streams, ¬ s.ids.Pairwise (· < ·) ∧
        ({} : IncomingSubgroupStream).readObjectIDs s.deltas = .error .overflow := by
  refine ⟨_, rfl, ?_⟩
  decide

end Writer
end MoqGo.Relay
