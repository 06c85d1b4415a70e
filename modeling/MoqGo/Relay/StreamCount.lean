import MoqGo.Lib.Counts
import MoqGo.Relay.Answer

/-!
# Which streams the Stream Count counts (`pkg/relay/handler_fanout.go`)

A `subgroupWriter` opens a stream through `openCounted`: `BeginStream` reserves it,
`OpenSubgroupContext` opens it and writes its SUBGROUP_HEADER, and `EndStream` counts it if that
returned no error. The header write is bounded by the writer's context: `openSubgroup` registers a
callback that resets the stream when the context is cancelled, and stops the callback when the
write has returned. The callback may start at any time in between, and start and still come too
late to interrupt the write; `OpenSubgroupContext` then returns an error **for a stream whose whole
header was written**, and the stream is not counted.

An `Opening` is one such call, up to its `EndStream`. Any number of them run beside the other
callers of the subscription (`Answering`), among them the fill streams, whose header write nothing
interrupts. A write that fails has not written the header whole, and a write after the callback's
`CancelWrite` fails.
-/

namespace MoqGo.Relay
namespace StreamCount

open Option

/-- How far an open has come. -/
inductive Phase
  /-- `BeginStream` returned true. -/
  | begun
  /-- The stream is open and the callback registered. -/
  | opened
  /-- The header write returned, without an error if the header is whole. -/
  | wrote (whole : Bool)
  /-- `openFillOrFetchStream`, after `BeginStream`. -/
  | filling
deriving DecidableEq, Repr

/-- A call of `openCounted` or `openFillOrFetchStream` under way. -/
structure Opening where
  phase : Phase
  /-- The writer's context is cancelled. -/
  ctxDone : Bool
  /-- The callback has started, so that `stop` returns false. -/
  started : Bool := false
  /-- The callback's `CancelWrite` has run. -/
  reset : Bool := false
deriving DecidableEq, Repr

/-- An open that has ended: whether its header was written whole, and whether it was counted. -/
structure Outcome where
  whole : Bool
  counted : Bool
deriving DecidableEq, Repr

inductive Move
  /-- The writer's context is cancelled. -/
  | cancelCtx
  | openUniStream (ok : Bool)
  | startCallback
  | cancelWrite
  | writeHeader (ok : Bool)
  /-- `stop`, the return of `OpenSubgroupContext`, and `EndStream`. -/
  | stop
  /-- `OpenFetchStream`, and `EndStream`. -/
  | openFetchStream (ok : Bool)
deriving DecidableEq, Repr

/-- `OpenSubgroupContext`, from the error and the `reset` of `openSubgroup`: whether it returns a
    stream. -/
def openSubgroupContext (err reset : Bool) : Bool := !err && !reset

def Phase.watched : Phase → Bool
  | .opened | .wrote _ => true
  | _ => false

namespace Opening

/-- The header is written whole. -/
def whole (o : Opening) : Bool := o.phase == .wrote true

/-- A step of an open, which may be its last. -/
def step (o : Opening) : Move → Option (Opening ⊕ Outcome)
  | .cancelCtx => some (.inl { o with ctxDone := true })
  | .openUniStream ok =>
    if o.phase ≠ .begun then none
    else if ok then
      -- a context that is cancelled already starts the callback at once
      some (.inl { o with phase := .opened, started := o.ctxDone })
    else some (.inr ⟨false, openSubgroupContext true false⟩)
  | .startCallback =>
    if o.phase.watched && o.ctxDone then some (.inl { o with started := true }) else none
  | .cancelWrite => if o.started then some (.inl { o with reset := true }) else none
  | .writeHeader ok =>
    if o.phase = .opened ∧ ¬(ok = true ∧ o.reset = true) then
      some (.inl { o with phase := .wrote ok })
    else none
  | .stop =>
    match o.phase with
    | .wrote true => some (.inr ⟨true, openSubgroupContext false o.started⟩)
    | .wrote false => some (.inr ⟨false, openSubgroupContext true false⟩)
    | _ => none
  | .openFetchStream ok => if o.phase = .filling then some (.inr ⟨ok, ok⟩) else none

end Opening

/-- A subscription, the opens under way and the opens that have ended. -/
structure Counting where
  answering : Answering
  opens : List Opening := []
  ended : List Outcome := []
deriving Repr

inductive Act
  /-- `openCounted`, by a writer whose context is cancelled or not. -/
  | openCounted (ctxDone : Bool)
  | openFillOrFetchStream
  | go (o : Opening) (m : Move)
  /-- A step of another caller. -/
  | other (a : Answering.Act)

def others : Answering.Act → Bool
  | .beginStream | .endStream _ => false
  | _ => true

namespace Counting

/-- `BeginStream`: an open comes in, unless the subscription is terminated. -/
def beginStream (s : Counting) (o : Opening) : Option Counting :=
  (s.answering.step .beginStream).map fun r =>
    { s with
      answering := r
      opens := if s.answering.sub.beginStream.2 then o :: s.opens else s.opens }

def step (s : Counting) : Act → Option Counting
  | .openCounted ctxDone => s.beginStream ⟨.begun, ctxDone, false, false⟩
  | .openFillOrFetchStream => s.beginStream ⟨.filling, false, false, false⟩
  | .go o m =>
    if o ∈ s.opens then
      match o.step m with
      | none => none
      | some (.inl o') => some { s with opens := o' :: s.opens.erase o }
      | some (.inr out) =>
        (s.answering.step (.endStream out.counted)).map fun r =>
          { answering := r, opens := s.opens.erase o, ended := out :: s.ended }
    else none
  | .other a =>
    if others a then (s.answering.step a).map fun r => { s with answering := r } else none

/-- The start: no stream yet. -/
def init (openedByPublish : Bool) : Counting := { answering := .init openedByPublish }

/-- The streams whose header is written whole, which the subscriber can attribute. -/
def headers (s : Counting) : Nat := s.ended.countP (·.whole) + s.opens.countP (·.whole)

end Counting

/-! ## What holds of every run -/

section Answering

variable {r r' : Answering}

theorem settle_opening : r.settle.opening = r.opening ∧ r.settle.opened = r.opened := by
  unfold Answering.settle
  split <;> exact ⟨rfl, rfl⟩

theorem others_step {a : Answering.Act} (ha : others a = true) (h : r.step a = some r') :
    r'.opening = r.opening ∧ r'.opened = r.opened := by
  cases a with
  | beginStream => cases ha
  | endStream opened => cases ha
  | streamClosed | endDatagram =>
    simp only [Answering.step] at h
    split_ifs at h
    cases h
    exact settle_opening
  | terminateWithPublishDone code reason =>
    simp only [Answering.step] at h
    split at h
    · exact some.inj h ▸ ⟨rfl, rfl⟩
    · cases h
      exact settle_opening
  | beginDatagram | endRefused | answer =>
    simp only [Answering.step] at h
    split at h
    all_goals first
      | exact some.inj h ▸ ⟨rfl, rfl⟩
      | (split_ifs at h; exact some.inj h ▸ ⟨rfl, rfl⟩)
      | cases h
  | closeRefused | lockSubscribeOK | checkSubscribeOK | writeSubscribeOK =>
    simp only [Answering.step] at h
    split_ifs at h
    all_goals exact some.inj h ▸ ⟨rfl, rfl⟩
  | terminate | cancel => exact some.inj h ▸ ⟨rfl, rfl⟩

theorem beginStream_step (h : r.step .beginStream = some r') :
    r'.opening = r.opening + r.sub.beginStream.2.toNat ∧ r'.opened = r.opened := by
  simp only [Answering.step] at h
  split at h
  next hsub => exact some.inj h ▸ ⟨by rw [hsub]; rfl, rfl⟩
  next hsub => exact some.inj h ▸ ⟨by rw [hsub]; rfl, rfl⟩

theorem endStream_step {opened : Bool} (h : r.step (.endStream opened) = some r') :
    r'.opening + 1 = r.opening ∧ r'.opened = r.opened + opened.toNat := by
  simp only [Answering.step] at h
  split_ifs at h with hzero hopened
  · cases h
    rw [settle_opening.1, settle_opening.2, hopened]
    exact ⟨Nat.succ_pred_eq_of_ne_zero hzero, rfl⟩
  · cases h
    rw [settle_opening.1, settle_opening.2, Bool.eq_false_iff.mpr hopened]
    exact ⟨Nat.succ_pred_eq_of_ne_zero hzero, rfl⟩

end Answering

structure Inv (s : Counting) : Prop where
  sound : s.answering.Sound
  opening : s.answering.opening = s.opens.length
  opened : s.answering.opened = s.ended.countP (·.counted)
  /-- No stream is counted without its header. -/
  counted : ∀ out ∈ s.ended, out.counted = true → out.whole = true

variable {s s' : Counting} {a : Act} {o : Opening} {m : Move} {out : Outcome}

theorem Inv.init (openedByPublish : Bool) : Inv (.init openedByPublish) where
  sound := Answering.Sound.init openedByPublish
  opening := rfl
  opened := rfl
  counted _ := nofun

theorem Opening.ends (h : o.step m = some (.inr out)) :
    (out = ⟨false, false⟩ ∧ (m = .stop → o.whole = false)) ∨
      (∃ ok, m = .openFetchStream ok ∧ out = ⟨ok, ok⟩) ∨
      (m = .stop ∧ o.whole = true ∧ out = ⟨true, !o.started⟩) := by
  cases m with
  | cancelCtx => cases h
  | openUniStream ok =>
    simp only [Opening.step] at h
    split_ifs at h
    · cases h
    · exact .inl ⟨(Sum.inr.inj (some.inj h)).symm, nofun⟩
  | startCallback | cancelWrite | writeHeader ok =>
    simp only [Opening.step] at h
    split_ifs at h
    cases h
  | stop =>
    simp only [Opening.step] at h
    split at h
    · next hwrote =>
      have hout := (Sum.inr.inj (some.inj h)).symm
      exact .inr (.inr ⟨rfl, by simp [Opening.whole, hwrote], hout⟩)
    · next hwrote =>
      have hout := (Sum.inr.inj (some.inj h)).symm
      exact .inl ⟨hout, fun _ => by simp [Opening.whole, hwrote]⟩
    · cases h
  | openFetchStream ok =>
    simp only [Opening.step] at h
    split_ifs at h
    exact .inr (.inl ⟨ok, rfl, (Sum.inr.inj (some.inj h)).symm⟩)

theorem Opening.counted_whole (h : o.step m = some (.inr out)) (hcounted : out.counted = true) :
    out.whole = true := by
  rcases Opening.ends h with ⟨rfl, -⟩ | ⟨ok, -, rfl⟩ | ⟨-, -, rfl⟩
  · exact hcounted
  · exact hcounted
  · rfl

theorem Inv.beginStream (h : Inv s) (hs : s.beginStream o = some s') : Inv s' := by
  obtain ⟨r, hr, rfl⟩ := map_eq_some_iff.mp hs
  obtain ⟨hopening, hopened⟩ := beginStream_step hr
  refine ⟨h.sound.step hr, ?_, hopened.trans h.opened, h.counted⟩
  simp only [hopening, h.opening]
  cases s.answering.sub.beginStream.2 <;> rfl

theorem Inv.step (h : Inv s) (hs : s.step a = some s') : Inv s' := by
  cases a with
  | openCounted ctxDone => exact h.beginStream hs
  | openFillOrFetchStream => exact h.beginStream hs
  | go o m =>
    simp only [Counting.step] at hs
    split_ifs at hs with ho
    have hlength := List.length_erase_add_one ho
    split at hs
    · cases hs
    · next o' _ =>
      cases hs
      exact ⟨h.sound, h.opening.trans hlength.symm, h.opened, h.counted⟩
    · next out hout =>
      obtain ⟨r, hr, rfl⟩ := map_eq_some_iff.mp hs
      obtain ⟨hopening, hopened⟩ := endStream_step hr
      refine ⟨h.sound.step hr, ?_, ?_, ?_⟩
      · have := h.opening
        simp only
        omega
      · rw [hopened, h.opened, Lib.countP_cons_toNat]
      · intro out' hout'
        rcases List.mem_cons.mp hout' with rfl | hout'
        · exact Opening.counted_whole hout
        · exact h.counted out' hout'
  | other a =>
    simp only [Counting.step] at hs
    split_ifs at hs with ha
    obtain ⟨r, hr, rfl⟩ := map_eq_some_iff.mp hs
    obtain ⟨hopening, hopened⟩ := others_step ha hr
    exact ⟨h.sound.step hr, hopening.trans h.opening, hopened.trans h.opened, h.counted⟩

/-! ## The condition -/

/-- The callback has not started when the header is written whole and the callback is to be
    stopped. -/
def InTime (_ : Counting) : Act → Prop
  | .go o .stop => ¬(o.whole = true ∧ o.started = true)
  | _ => True

def Exact (s : Counting) : Prop := ∀ out ∈ s.ended, out.counted = out.whole

theorem Opening.exact_iff (h : o.step m = some (.inr out)) :
    out.counted = out.whole ↔ InTime s (.go o m) := by
  rcases Opening.ends h with ⟨rfl, hstop⟩ | ⟨ok, rfl, rfl⟩ | ⟨rfl, hwhole, rfl⟩
  · refine iff_of_true rfl ?_
    unfold InTime
    split
    · next heq =>
      cases heq
      simp [hstop rfl]
    · trivial
  · exact iff_of_true rfl trivial
  · simp [InTime, hwhole]

theorem Opening.inTime_of_goes_on {o' : Opening} (h : o.step m = some (.inl o')) :
    InTime s (.go o m) := by
  cases m with
  | stop =>
    simp only [Opening.step] at h
    split at h <;> cases h
  | _ => trivial

/-- **One step**: the streams counted stay those with their header exactly if the step is in
    time. -/
theorem exact_step (hs : s.step a = some s') : Exact s' ↔ Exact s ∧ InTime s a := by
  have hcons : ∀ {o : Opening} {m : Move} {out : Outcome},
      o.step m = some (.inr out) → ((∀ out' ∈ out :: s.ended, out'.counted = out'.whole) ↔
        Exact s ∧ InTime s (.go o m)) := by
    intro o m out hout
    rw [List.forall_mem_cons, Opening.exact_iff (s := s) hout, and_comm]
    rfl
  cases a with
  | openCounted ctxDone =>
    obtain ⟨r, -, rfl⟩ := map_eq_some_iff.mp hs
    exact (and_iff_left trivial).symm
  | openFillOrFetchStream =>
    obtain ⟨r, -, rfl⟩ := map_eq_some_iff.mp hs
    exact (and_iff_left trivial).symm
  | go o m =>
    simp only [Counting.step] at hs
    split_ifs at hs with ho
    split at hs
    · cases hs
    · next o' ho' =>
      cases hs
      exact (and_iff_left (Opening.inTime_of_goes_on ho')).symm
    · next out hout =>
      obtain ⟨r, -, rfl⟩ := map_eq_some_iff.mp hs
      exact hcons hout
  | other a =>
    simp only [Counting.step] at hs
    split_ifs at hs with ha
    obtain ⟨r, hr, rfl⟩ := map_eq_some_iff.mp hs
    exact (and_iff_left trivial).symm

/-! ## Every run -/

theorem exact_run {openedByPublish : Bool} {acts : List Act}
    (hrun : Lib.run Counting.step (.init openedByPublish) acts = some s) :
    Exact s ↔ Lib.Along Counting.step InTime (.init openedByPublish) acts := by
  have hinv : ∀ (s : Counting) (a : Act) (s' : Counting), True → s.step a = some s' → True :=
    fun _ _ _ _ _ => trivial
  have hiff := Lib.run_iff_along hinv (fun _ _ _ _ hs => exact_step hs) trivial hrun
  rwa [and_iff_right (show Exact (.init openedByPublish) from nofun)] at hiff

/-- The streams with their header are as many as those counted, exactly if they are the same. -/
theorem exact_iff_countP {ended : List Outcome}
    (h : ∀ out ∈ ended, out.counted = true → out.whole = true) :
    ended.countP (·.counted) = ended.countP (·.whole) ↔
      ∀ out ∈ ended, out.counted = out.whole := by
  induction ended with
  | nil => simp
  | cons out ended ih =>
    obtain ⟨hout, hrest⟩ := List.forall_mem_cons.mp h
    have hle : ended.countP (·.counted) ≤ ended.countP (·.whole) :=
      List.countP_mono_left hrest
    rw [List.forall_mem_cons, ← ih hrest, Lib.countP_cons_toNat, Lib.countP_cons_toNat]
    cases hc : out.counted with
    | true =>
      rw [hout hc]
      simp
    | false =>
      cases out.whole with
      | true =>
        simp only [Bool.toNat_false, Bool.toNat_true, reduceCtorEq, false_and, iff_false]
        omega
      | false => simp

/-- A PUBLISH_DONE comes when no open is under way, and carries the number of streams counted. -/
theorem Inv.publishDone (h : Inv s) {code : PublishDoneCode} {n : Nat} {reason : String}
    (hm : .publishDone code n reason ∈ s.answering.written) :
    n = s.ended.countP (·.counted) ∧ s.headers = s.ended.countP (·.whole) := by
  have hopening := (h.sound.quiet (Answering.Sound.issued_ne_zero hm rfl)).1
  have hnil : s.opens = [] := List.eq_nil_of_length_eq_zero (h.opening.symm.trans hopening)
  refine ⟨(h.sound.count code n reason hm).trans h.opened, ?_⟩
  rw [Counting.headers, hnil]
  rfl

/-- **The Stream Count covers every attributable stream, exactly if no cancellation lands between
    a whole header and the stop of its callback.** In every run, with any contexts cancelled and
    any writes failing: the streams counted are those whose whole header was written if and only
    if every open stops its callback in time; and that is also exactly when a PUBLISH_DONE has the
    number of streams whose header was written. -/
theorem stream_count_exact_iff {openedByPublish : Bool} {acts : List Act}
    (hrun : Lib.run Counting.step (.init openedByPublish) acts = some s) :
    ((∀ out ∈ s.ended, out.counted = true ↔ out.whole = true) ↔
        Lib.Along Counting.step InTime (.init openedByPublish) acts) ∧
      ∀ code n reason, .publishDone code n reason ∈ s.answering.written →
        (n = s.headers ↔ Lib.Along Counting.step InTime (.init openedByPublish) acts) := by
  have hinv : Inv s :=
    Lib.run_inv (fun _ _ _ h hs => h.step hs) (Inv.init openedByPublish) hrun
  constructor
  · rw [← exact_run hrun]
    exact forall₂_congr fun out _ => Bool.eq_iff_iff.symm
  · intro code n reason hm
    obtain ⟨hn, hheaders⟩ := hinv.publishDone hm
    rw [← exact_run hrun, hn, hheaders]
    exact exact_iff_countP hinv.counted

/-- A writer's context is cancelled while its header is written, and the callback comes too late
    to interrupt the write, but starts before it is stopped; another header write is interrupted;
    then the subscription ends. -/
def lateCallback : List Act :=
  [.openCounted false, .openCounted false, .go ⟨.begun, false, false, false⟩ (.openUniStream true),
    .go ⟨.opened, false, false, false⟩ .cancelCtx, .go ⟨.opened, true, false, false⟩ .startCallback,
    .go ⟨.opened, true, true, false⟩ (.writeHeader true),
    .go ⟨.wrote true, true, true, false⟩ .stop,
    .go ⟨.begun, false, false, false⟩ .cancelCtx,
    .go ⟨.begun, true, false, false⟩ (.openUniStream true),
    .go ⟨.opened, true, true, false⟩ .cancelWrite,
    .go ⟨.opened, true, true, true⟩ (.writeHeader false),
    .go ⟨.wrote false, true, true, true⟩ .stop,
    .other (.terminateWithPublishDone 2 "relay: upstream gone"), .other .answer]

/-- **A stream whose whole header was written is missing from the Stream Count.** -/
theorem late_callback_uncounted :
    ∃ s, Lib.run Counting.step (.init true) lateCallback = some s ∧
      s.answering.written = [.publishDone 2 0 "relay: upstream gone", .fin] ∧ s.headers = 1 ∧
      ⟨true, false⟩ ∈ s.ended := by
  have hrun : Lib.run Counting.step (.init true) lateCallback = some _ := rfl
  exact ⟨_, hrun, rfl, rfl, by decide⟩

/-- A writer whose header write was interrupted, and one whose context was cancelled but whose
    callback was stopped: the one stream with its header counts. -/
def callbackStopped : List Act :=
  [.openCounted true, .go ⟨.begun, true, false, false⟩ (.openUniStream true),
    .openCounted false, .go ⟨.begun, false, false, false⟩ (.openUniStream true),
    .go ⟨.opened, true, true, false⟩ .cancelWrite,
    .go ⟨.opened, true, true, true⟩ (.writeHeader false),
    .go ⟨.wrote false, true, true, true⟩ .stop,
    .go ⟨.opened, false, false, false⟩ (.writeHeader true),
    .go ⟨.wrote true, false, false, false⟩ .cancelCtx,
    .go ⟨.wrote true, true, false, false⟩ .stop,
    .other (.terminateWithPublishDone 2 "relay: upstream gone"), .other .streamClosed,
    .other .answer]

theorem stream_count_exact_iff_stopped :
    ∃ s, Lib.run Counting.step (.init true) callbackStopped = some s ∧
      .publishDone 2 1 "relay: upstream gone" ∈ s.answering.written ∧ 1 = s.headers := by
  have hrun : Lib.run Counting.step (.init true) callbackStopped = some _ := rfl
  have hdone : Sent.publishDone 2 1 "relay: upstream gone" ∈
      [Sent.publishDone 2 1 "relay: upstream gone", .fin] := List.mem_cons_self
  have hexact := (stream_count_exact_iff hrun).1.mp (by decide)
  exact ⟨_, hrun, hdone, ((stream_count_exact_iff hrun).2 _ _ _ hdone).mpr hexact⟩

end StreamCount
end MoqGo.Relay
