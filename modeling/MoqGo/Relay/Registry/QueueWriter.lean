import MoqGo.Relay.Registry.Subscriber

/-!
# The writer of a namespace subscription (`pkg/relay/internal/registry/namespace_state.go`)

The messages of a namespace subscription are queued by whoever changes the registry, and written
by one goroutine, `RunWriter`. A push appends under `outMu` and sends the wake-up **after it has
released it**; `RunWriter` takes one message at a time under the same lock, and goes back to its
select when it has found the queue empty. Three things stop the queue: the last message
(`Finish`), a write that fails, and a push that finds the stream blocked. The last of them drops
the queue and wakes nobody.

The wake-up is not lost all the same. Where `RunWriter` is in its select there is something it
has not seen only if a token is there for it, or a push has still to send one (`Queued.awake`).
That includes a queue stopped by the bound: it was full, and so had the token of one of its
messages.
-/

namespace MoqGo.Relay
namespace QueueWriter

open Lib List

/-! ## The steps -/

/-- Where `RunWriter` is. -/
inductive Writer where
  /-- In the select. -/
  | waiting
  /-- About to lock `outMu` and look at the queue. -/
  | checking
  | sending (m : SubMessage)
  /-- The write returned, and `outMu` is not locked again yet. -/
  | wrote
  | failed (m : SubMessage)
  /-- The finish marker is taken, and the stream not closed yet. -/
  | finishing
  | done
  deriving DecidableEq

structure State where
  queue : Outbox
  writer : Writer
  /-- The pushes that have appended and not sent the wake-up yet. -/
  signals : Nat
  /-- The entry is unregistered. -/
  closed : Bool
  /-- The stream is closed by the writer; its reading side is cancelled. -/
  fin : Bool
  readCancelled : Bool
  deriving DecidableEq

def init : State := ⟨{}, .waiting, 0, false, false, false⟩

inductive Act where
  /-- `Enqueue` or, if `last`, `Finish`: what `push` does under the lock. It has read the clock
      before. -/
  | push (m : SubMessage) (last : Bool) (now : Nat)
  /-- The send on `outReady` at the end of a push, which finds a token there or leaves one. -/
  | signal
  /-- The select's two cases. -/
  | wake
  | leave
  /-- `RunWriter` looks at the queue. -/
  | check
  | write (ok : Bool)
  /-- What `RunWriter` does under the lock after a write. -/
  | settle
  | closeStream
  | unregister

/-- The message a push brings. -/
def message : Act → Option SubMessage
  | .push m _ _ => some m
  | _ => none

def accepts (q : Outbox) (now : Nat) : Bool := !q.stopped && !q.blockedLocked now

def resets (q : Outbox) (now : Nat) : Bool := !q.stopped && q.blockedLocked now

def step (s : State) : Act → Option State
  | .push m last now => some { s with
      queue := { s.queue.push now m last with outReady := s.queue.outReady }
      signals := s.signals + (accepts s.queue now).toNat
      readCancelled := s.readCancelled || resets s.queue now }
  | .signal =>
    if s.signals = 0 then none
    else some { s with queue := { s.queue with outReady := true }, signals := s.signals - 1 }
  | .wake =>
    if s.writer = .waiting ∧ s.queue.outReady = true then
      some { s with queue := { s.queue with outReady := false }, writer := .checking }
    else none
  | .leave =>
    if s.writer = .waiting ∧ s.closed = true then some { s with writer := .done } else none
  | .check =>
    match s.writer, s.queue.outbox with
    | .checking, [] => some { s with writer := if s.queue.stopped then .done else .waiting }
    | .checking, x :: rest => some { s with
        queue := { s.queue with outbox := rest, writing := some x }
        writer := match x.m with
          | none => .finishing
          | some m => .sending m }
    | _, _ => none
  | .write ok =>
    match s.writer, ok with
    | .sending m, true => some { s with
        queue := { s.queue with written := s.queue.written ++ [m] }
        writer := .wrote }
    | .sending m, false => some { s with writer := .failed m }
    | _, _ => none
  | .settle =>
    match s.writer with
    | .wrote => some { s with queue := { s.queue with writing := none }, writer := .checking }
    | .failed _ => some { s with
        queue := { s.queue with writing := none, stopped := true, outbox := [] }
        writer := .done
        readCancelled := true }
    | _ => none
  | .closeStream =>
    if s.writer = .finishing then some { s with fin := true, writer := .done } else none
  | .unregister => some { s with closed := true }

/-! ## The invariant -/

/-- The message being written, or the one that could not be. -/
def Writer.inFlight : Writer → List SubMessage
  | .sending m | .failed m => [m]
  | _ => []

/-- The messages in the queue, without the finish marker. -/
def messages (q : Outbox) : List SubMessage := q.outbox.filterMap (·.m)

/-- What holds of a queue and its writer. -/
structure Queued (s : State) : Prop where
  /-- What is written and being written was queued, in this order. -/
  order : s.queue.written ++ s.writer.inFlight <+: s.queue.pushed
  /-- Nothing is missing, unless the queue was dropped. -/
  whole : s.queue.pushed = s.queue.written ++ s.writer.inFlight ++ messages s.queue ∨
    s.readCancelled = true ∧ s.queue.stopped = true ∧ s.queue.outbox = []
  /-- The finish marker is the end of the queue, which is stopped. -/
  last : s.queue.outbox.Pairwise fun x _ => x.m.isSome = true
  marker : ∀ x ∈ s.queue.outbox, x.m = none → s.queue.stopped = true
  idle : s.writer = .waiting ∨ s.writer = .checking → s.queue.writing = none
  /-- No wake-up is lost. -/
  awake : s.writer = .waiting →
    s.queue.outbox = [] ∧ s.queue.stopped = false ∨ s.queue.outReady = true ∨ 0 < s.signals
  /-- Once the marker is taken, all has been written. -/
  finished : s.writer = .finishing ∨ s.fin = true →
    s.queue.stopped = true ∧ s.queue.written = s.queue.pushed
  fin : s.fin = true → s.writer = .done

theorem queued_init : Queued init where
  order := List.nil_prefix
  whole := .inl rfl
  last := List.Pairwise.nil
  marker := nofun
  idle _ := rfl
  awake _ := .inl ⟨rfl, rfl⟩
  finished := nofun
  fin := nofun

variable {s s' : State} {m : SubMessage} {last : Bool} {now : Nat} {rest : List QueuedMessage}
  {a : Act}

/-! ### A push -/

/-- A push that finds the stream blocked. -/
def dropped (s : State) : State :=
  { s with queue := { s.queue with stopped := true, outbox := [] }, readCancelled := true }

/-- A push that is accepted. -/
def appended (s : State) (m : SubMessage) (last : Bool) (now : Nat) : State :=
  { s with
    queue := { s.queue with
      outbox := s.queue.outbox ++ ⟨some m, now⟩ :: if last then [⟨none, now⟩] else []
      stopped := last
      pushed := s.queue.pushed ++ [m] }
    signals := s.signals + 1 }

theorem push_cases (hs : step s (.push m last now) = some s') :
    s.queue.stopped = true ∧ s' = s ∨
      s.queue.stopped = false ∧ s.queue.blockedLocked now = true ∧ s' = dropped s ∨
      s.queue.stopped = false ∧ s.queue.blockedLocked now = false ∧ s' = appended s m last now := by
  cases hs
  cases hstopped : s.queue.stopped with
  | true =>
    have ha : accepts s.queue now = false := by simp [accepts, hstopped]
    have hr : resets s.queue now = false := by simp [resets, hstopped]
    refine .inl ⟨rfl, ?_⟩
    simp only [Outbox.push, if_pos hstopped, ha, hr, Bool.toNat_false, Nat.add_zero, Bool.or_false]
  | false =>
    cases hblocked : s.queue.blockedLocked now <;>
      simp [Outbox.push, accepts, resets, hstopped, hblocked, dropped, appended]

theorem outbox_ne_nil_of_blocked {q : Outbox} (hidle : q.writing = none)
    (hblocked : q.blockedLocked now = true) : q.outbox ≠ [] := by
  intro hempty
  simp [Outbox.blockedLocked, hidle, hempty] at hblocked

theorem Queued.dropped (h : Queued s) (hblocked : s.queue.blockedLocked now = true) :
    Queued (dropped s) where
  order := h.order
  whole := .inr ⟨rfl, rfl, rfl⟩
  last := List.Pairwise.nil
  marker := nofun
  idle := h.idle
  awake hw := by
    -- A writer in its select is not writing, so it is the queue that was full.
    have hne := outbox_ne_nil_of_blocked (h.idle (.inl hw)) hblocked
    exact .inr ((h.awake hw).resolve_left fun hempty => hne hempty.1)
  finished hf := ⟨rfl, (h.finished hf).2⟩
  fin := h.fin

theorem Queued.appended (h : Queued s) (hstopped : s.queue.stopped = false) :
    Queued (appended s m last now) where
  order := h.order.trans (List.prefix_append _ _)
  whole := by
    rcases h.whole with hwhole | ⟨-, hs, -⟩
    · left
      cases last <;> simp [QueueWriter.appended, messages, hwhole]
    · rw [hstopped] at hs
      cases hs
  last := by
    refine pairwise_append.mpr ⟨h.last, ?_, fun x hx _ _ => ?_⟩
    · cases last <;> simp
    · by_contra hnone
      have hs := h.marker x hx (by simpa using hnone)
      rw [hstopped] at hs
      cases hs
  marker x hx hm := by
    rcases mem_append.mp hx with hx | hx
    · have hs := h.marker x hx hm
      rw [hstopped] at hs
      cases hs
    · cases last with
      | true => rfl
      | false =>
        obtain rfl := mem_singleton.mp hx
        cases hm
  idle := h.idle
  awake _ := .inr (.inr (Nat.succ_pos _))
  finished hf := by
    have hs := (h.finished hf).1
    rw [hstopped] at hs
    cases hs
  fin := h.fin

theorem Queued.push (h : Queued s) (hs : step s (.push m last now) = some s') : Queued s' := by
  rcases push_cases hs with ⟨-, rfl⟩ | ⟨-, hblocked, rfl⟩ | ⟨hstopped, -, rfl⟩
  · exact h
  · exact h.dropped hblocked
  · exact h.appended hstopped

/-! ### A step of `RunWriter` -/

theorem Queued.not_fin (h : Queued s) (hw : s.writer ≠ .done) : s.fin = false :=
  Bool.eq_false_iff.mpr fun hfin => hw (h.fin hfin)

theorem queued_running (hw : s.writer ≠ .finishing) (hfin : s.fin = false)
    (horder : s.queue.written ++ s.writer.inFlight <+: s.queue.pushed)
    (hwhole : s.queue.pushed = s.queue.written ++ s.writer.inFlight ++ messages s.queue ∨
      s.readCancelled = true ∧ s.queue.stopped = true ∧ s.queue.outbox = [])
    (hlast : s.queue.outbox.Pairwise fun x _ => x.m.isSome = true)
    (hmarker : ∀ x ∈ s.queue.outbox, x.m = none → s.queue.stopped = true)
    (hidle : s.writer = .waiting ∨ s.writer = .checking → s.queue.writing = none)
    (hawake : s.writer = .waiting →
      s.queue.outbox = [] ∧ s.queue.stopped = false ∨ s.queue.outReady = true ∨ 0 < s.signals) :
    Queued s := by
  have hnot : ¬ s.fin = true := by simp [hfin]
  refine ⟨horder, hwhole, hlast, hmarker, hidle, hawake, ?_, fun hf => absurd hf hnot⟩
  rintro (hf | hf)
  · exact absurd hf hw
  · exact absurd hf hnot

section

variable (h : Queued s)
include h

theorem Queued.check_nil (hw : s.writer = .checking) (hempty : s.queue.outbox = []) :
    Queued { s with writer := if s.queue.stopped then .done else .waiting } := by
  have hfin : s.fin = false := h.not_fin (by simp [hw])
  have horder := h.order
  have hwhole := h.whole
  rw [hw] at horder hwhole
  cases hstopped : s.queue.stopped with
  | true => exact queued_running nofun hfin horder hwhole h.last h.marker nofun nofun
  | false =>
    exact queued_running nofun hfin horder hwhole h.last h.marker (fun _ => h.idle (.inr hw))
      fun _ => .inl ⟨hempty, hstopped⟩

theorem Queued.check_cons (hw : s.writer = .checking) {queuedAt : Nat}
    (hq : s.queue.outbox = ⟨some m, queuedAt⟩ :: rest) : Queued { s with
      queue := { s.queue with outbox := rest, writing := some ⟨some m, queuedAt⟩ }
      writer := .sending m } := by
  have hpushed : s.queue.pushed = s.queue.written ++ [m] ++ rest.filterMap (·.m) := by
    rcases h.whole with hwhole | ⟨-, -, hempty⟩
    · simpa [hw, Writer.inFlight, messages, hq] using hwhole
    · rw [hq] at hempty
      cases hempty
  have horder : s.queue.written ++ [m] <+: s.queue.pushed := by
    rw [hpushed]
    exact prefix_append _ _
  have hlast := h.last
  rw [hq] at hlast
  refine queued_running nofun (h.not_fin (by simp [hw])) horder (.inl hpushed) hlast.of_cons ?_
    nofun nofun
  intro x hx
  exact h.marker x (hq ▸ mem_cons_of_mem _ hx)

theorem Queued.check_marker (hw : s.writer = .checking) {queuedAt : Nat}
    (hq : s.queue.outbox = ⟨none, queuedAt⟩ :: rest) : Queued { s with
      queue := { s.queue with outbox := rest, writing := some ⟨none, queuedAt⟩ }
      writer := .finishing } := by
  have hlast := h.last
  rw [hq, pairwise_cons] at hlast
  have hrest : rest = [] := by
    cases rest with
    | nil => rfl
    | cons y ys => cases hlast.1 y mem_cons_self
  subst hrest
  have hall : s.queue.written = s.queue.pushed := by
    rcases h.whole with hwhole | ⟨-, -, hempty⟩
    · simpa [hw, Writer.inFlight, messages, hq] using hwhole.symm
    · rw [hq] at hempty
      cases hempty
  have hstopped := h.marker _ (hq ▸ mem_cons_self) rfl
  have hfin : s.fin = false := h.not_fin (by simp [hw])
  refine ⟨?_, .inl ?_, hlast.2, nofun, nofun, nofun, fun _ => ⟨hstopped, hall⟩, fun hf => ?_⟩
  · simp [Writer.inFlight, hall]
  · simp [Writer.inFlight, hall, messages]
  · exact absurd hf (by simp [hfin])

theorem Queued.check (hs : step s .check = some s') : Queued s' := by
  simp only [step] at hs
  split at hs
  · next hw hempty =>
    cases hs
    exact h.check_nil hw hempty
  · next x rest hw hq =>
    cases hs
    obtain ⟨m, queuedAt⟩ := x
    cases m with
    | none => exact h.check_marker hw hq
    | some m => exact h.check_cons hw hq
  · cases hs

theorem Queued.write {ok : Bool} (hs : step s (.write ok) = some s') : Queued s' := by
  have horder := h.order
  have hwhole := h.whole
  simp only [step] at hs
  split at hs
  · next m hw =>
    cases hs
    rw [hw] at horder hwhole
    refine queued_running nofun (h.not_fin (by simp [hw])) ?_ ?_ h.last h.marker nofun nofun
    · simpa [Writer.inFlight] using horder
    · simpa [Writer.inFlight, messages] using hwhole
  · next m hw =>
    cases hs
    rw [hw] at horder hwhole
    exact queued_running nofun (h.not_fin (by simp [hw])) horder hwhole h.last h.marker nofun nofun
  · cases hs

theorem Queued.settle (hs : step s .settle = some s') : Queued s' := by
  have horder := h.order
  have hwhole := h.whole
  simp only [step] at hs
  split at hs
  · next hw =>
    cases hs
    rw [hw] at horder hwhole
    exact queued_running nofun (h.not_fin (by simp [hw])) horder hwhole h.last h.marker
      (fun _ => rfl) nofun
  · next m hw =>
    cases hs
    have hwritten : s.queue.written <+: s.queue.pushed := (prefix_append _ _).trans horder
    refine queued_running nofun (h.not_fin (by simp [hw])) ?_ (.inr ⟨rfl, rfl, rfl⟩)
      List.Pairwise.nil nofun nofun nofun
    simpa [Writer.inFlight] using hwritten
  · cases hs

/-! ### Every step -/

theorem Queued.step (hs : step s a = some s') : Queued s' := by
  have horder := h.order
  have hwhole := h.whole
  cases a with
  | push m last now => exact h.push hs
  | signal =>
    simp only [QueueWriter.step, unless_iff] at hs
    obtain ⟨-, rfl⟩ := hs
    exact ⟨horder, hwhole, h.last, h.marker, h.idle, fun _ => .inr (.inl rfl), h.finished, h.fin⟩
  | wake =>
    obtain ⟨⟨hw, -⟩, rfl⟩ := guard_iff.mp hs
    rw [hw] at horder hwhole
    exact queued_running nofun (h.not_fin (by simp [hw])) horder hwhole h.last h.marker
      (fun _ => h.idle (.inl hw)) nofun
  | leave =>
    obtain ⟨⟨hw, -⟩, rfl⟩ := guard_iff.mp hs
    rw [hw] at horder hwhole
    exact queued_running nofun (h.not_fin (by simp [hw])) horder hwhole h.last h.marker nofun nofun
  | check => exact h.check hs
  | write ok => exact h.write hs
  | settle => exact h.settle hs
  | closeStream =>
    obtain ⟨hw, rfl⟩ := guard_iff.mp hs
    rw [hw] at horder hwhole
    exact ⟨horder, hwhole, h.last, h.marker, nofun, nofun, fun _ => h.finished (.inl hw),
      fun _ => rfl⟩
  | unregister =>
    cases hs
    exact ⟨horder, hwhole, h.last, h.marker, h.idle, h.awake, h.finished, h.fin⟩

end

/-! ## Once the queue is stopped -/

/-- The step stops the queue: a push that is the last or finds the stream blocked, or a write that
    fails. -/
def Stops (s : State) : Act → Prop
  | .push _ last now => s.queue.stopped = false ∧ (last = true ∨ s.queue.blockedLocked now = true)
  | .write ok => ok = false
  | _ => False

/-- The steps other than a push queue nothing, and restart nothing. -/
theorem step_frame (hs : step s a = some s') (hpush : message a = none) :
    s'.queue.pushed = s.queue.pushed ∧ (s.queue.stopped = true → s'.queue.stopped = true) := by
  cases a with
  | push m last now => cases hpush
  | signal =>
    simp only [step, unless_iff] at hs
    obtain ⟨-, rfl⟩ := hs
    exact ⟨rfl, id⟩
  | wake | leave | closeStream =>
    obtain ⟨-, rfl⟩ := guard_iff.mp hs
    exact ⟨rfl, id⟩
  | check | write ok =>
    simp only [step] at hs
    split at hs <;> cases hs <;> exact ⟨rfl, id⟩
  | settle =>
    simp only [step] at hs
    split at hs <;> cases hs
    · exact ⟨rfl, id⟩
    · exact ⟨rfl, fun _ => rfl⟩
  | unregister =>
    cases hs
    exact ⟨rfl, id⟩

theorem step_stopped (h : s.queue.stopped = true) (hs : step s a = some s') :
    s'.queue.stopped = true ∧ s'.queue.pushed = s.queue.pushed := by
  cases a with
  | push m last now =>
    rcases push_cases hs with ⟨-, rfl⟩ | ⟨hopen, -⟩ | ⟨hopen, -⟩
    · exact ⟨h, rfl⟩
    all_goals cases hopen.symm.trans h
  | _ => exact ⟨(step_frame hs rfl).2 h, (step_frame hs rfl).1⟩

def Writer.halted : Writer → Bool
  | .failed _ | .done => true
  | _ => false

theorem step_halted (h : s.writer.halted = true) (hs : step s a = some s') :
    s'.writer.halted = true ∧ s'.queue.written = s.queue.written := by
  cases a with
  | push m last now =>
    rcases push_cases hs with ⟨-, rfl⟩ | ⟨-, -, rfl⟩ | ⟨-, -, rfl⟩
    all_goals exact ⟨h, rfl⟩
  | signal =>
    simp only [step, unless_iff] at hs
    obtain ⟨-, rfl⟩ := hs
    exact ⟨h, rfl⟩
  | leave | closeStream =>
    obtain ⟨-, rfl⟩ := guard_iff.mp hs
    exact ⟨rfl, rfl⟩
  | wake =>
    obtain ⟨⟨hw, -⟩, -⟩ := guard_iff.mp hs
    rw [hw] at h
    cases h
  | check | write ok =>
    cases hw : s.writer with
    | failed m => simp [step, hw] at hs
    | done => simp [step, hw] at hs
    | _ =>
      rw [hw] at h
      cases h
  | settle =>
    simp only [step] at hs
    split at hs <;> cases hs
    · next hw =>
      rw [hw] at h
      cases h
    · exact ⟨rfl, rfl⟩
  | unregister =>
    cases hs
    exact ⟨h, rfl⟩

/-- Nothing but what was queued up to a point is written: the queue was stopped with it, or the
    writer could not go on. -/
def Capped (pushed : List SubMessage) (s : State) : Prop :=
  s.queue.stopped = true ∧ s.queue.pushed = pushed ∨
    s.writer.halted = true ∧ s.queue.written <+: pushed

theorem Capped.step {pushed : List SubMessage} (h : Capped pushed s) (hs : step s a = some s') :
    Capped pushed s' := by
  rcases h with ⟨hstopped, hpushed⟩ | ⟨hhalted, hwritten⟩
  · obtain ⟨hstopped', hsame⟩ := step_stopped hstopped hs
    exact .inl ⟨hstopped', hsame.trans hpushed⟩
  · obtain ⟨hhalted', hsame⟩ := step_halted hhalted hs
    exact .inr ⟨hhalted', hsame ▸ hwritten⟩

theorem capped_stops (h : Queued s) (hstops : Stops s a) (hs : step s a = some s') :
    Capped s'.queue.pushed s' := by
  cases a with
  | push m last now =>
    obtain ⟨hopen, hwhy⟩ := hstops
    rcases push_cases hs with ⟨hstopped, -⟩ | ⟨-, -, rfl⟩ | ⟨-, hblocked, rfl⟩
    · cases hopen.symm.trans hstopped
    · exact .inl ⟨rfl, rfl⟩
    · exact .inl ⟨hwhy.resolve_right (by simp [hblocked]), rfl⟩
  | write ok =>
    obtain rfl : ok = false := hstops
    simp only [step] at hs
    split at hs <;> cases hs
    · next heq => cases heq
    · exact .inr ⟨rfl, (prefix_append _ _).trans h.order⟩
  | _ => exact hstops.elim

/-! ## The run -/

theorem step_pushed (hs : step s a = some s') :
    s'.queue.pushed.Sublist (s.queue.pushed ++ (message a).toList) := by
  have hsame : s.queue.pushed.Sublist (s.queue.pushed ++ (message a).toList) :=
    sublist_append_left _ _
  cases a with
  | push m last now =>
    rcases push_cases hs with ⟨-, rfl⟩ | ⟨-, -, rfl⟩ | ⟨-, -, rfl⟩
    · exact hsame
    · exact hsame
    · exact List.Sublist.refl _
  | _ => exact (step_frame hs rfl).1 ▸ hsame

theorem run_pushed : ∀ {acts : List Act} {s s' : State}, run step s acts = some s' →
    s'.queue.pushed.Sublist (s.queue.pushed ++ acts.filterMap message) := by
  intro acts
  induction acts with
  | nil =>
    intro s s' hrun
    cases hrun
    exact sublist_append_left _ _
  | cons a acts ih =>
    intro s s' hrun
    obtain ⟨t, ht, hrest⟩ := run_cons.mp hrun
    have hone := (step_pushed ht).append_right (acts.filterMap message)
    have hall := (ih hrest).trans hone
    cases hm : message a <;> simpa [filterMap_cons, hm] using hall

/-- **No message and no wake-up is lost.** In every run of pushes, the writer and the entry's
    owner:

    * what is written is the beginning of what was queued, which is what was pushed without what
      came too late, and unless the queue was dropped what is missing is in flight or queued;
    * in its select the writer has a token, or a push is about to send one, or the queue is empty;
    * once the finish marker is taken all has been written, and nothing more is queued;
    * after a step that stops the queue nothing else than what had been queued then is written,
      and the writer is in its select only with a token or a push about to send one. -/
theorem runWriter_loses_nothing {acts : List Act} (hrun : run step init acts = some s) :
    s.queue.written <+: s.queue.pushed ∧
      s.queue.pushed.Sublist (acts.filterMap message) ∧
      (s.readCancelled = false →
        s.queue.pushed = s.queue.written ++ s.writer.inFlight ++ messages s.queue) ∧
      (s.writer = .waiting →
        s.queue.outbox = [] ∨ s.queue.outReady = true ∨ 0 < s.signals) ∧
      (s.writer = .finishing ∨ s.fin = true →
        s.queue.stopped = true ∧ s.queue.written = s.queue.pushed) ∧
      ∀ before a after t u, acts = before ++ a :: after → run step init before = some t →
        Stops t a → step t a = some u →
        s.queue.written <+: u.queue.pushed ∧
          (s.writer = .waiting → s.queue.outReady = true ∨ 0 < s.signals) := by
  have h : Queued s := run_inv (fun _ _ _ h hs => h.step hs) queued_init hrun
  have hwritten : s.queue.written <+: s.queue.pushed := (prefix_append _ _).trans h.order
  refine ⟨hwritten, run_pushed hrun, fun hc => ?_, fun hw => ?_, h.finished, ?_⟩
  · exact h.whole.resolve_right fun hdropped => absurd hdropped.1 (by simp [hc])
  · exact (h.awake hw).imp_left And.left
  · rintro before a after t u rfl ht hstops hu
    obtain ⟨t', ht', hrest⟩ := run_append.mp hrun
    obtain rfl : t = t' := Option.some.inj (ht.symm.trans ht')
    obtain ⟨u', hu', hafter⟩ := run_cons.mp hrest
    obtain rfl : u = u' := Option.some.inj (hu.symm.trans hu')
    have hqueued : Queued t := run_inv (fun _ _ _ h hs => h.step hs) queued_init ht
    have hcapped : Capped u.queue.pushed s :=
      run_inv (fun _ _ _ h hs => h.step hs) (capped_stops hqueued hstops hu) hafter
    rcases hcapped with ⟨hstopped, hpushed⟩ | ⟨hhalted, hcap⟩
    · refine ⟨hpushed ▸ hwritten, fun hw => (h.awake hw).resolve_left fun hempty => ?_⟩
      rw [hstopped] at hempty
      cases hempty.2
    · refine ⟨hcap, fun hw => ?_⟩
      rw [hw] at hhalted
      cases hhalted

/-- An update is answered, the next one refused, and a message comes too late. -/
def refusedUpdate : List Act :=
  [.push (.requestOk none) false 0, .signal, .wake, .check, .write true, .settle,
    .push .requestError true 1, .push (.requestOk none) false 2, .check, .write true, .settle,
    .check, .closeStream]

theorem runWriter_loses_nothing_refusedUpdate :
    ∃ s, run step init refusedUpdate = some s ∧ s.fin = true ∧ s.readCancelled = false ∧
      s.queue.pushed = [.requestOk none, .requestError] ∧
      s.queue.written = s.queue.pushed ∧
      s.queue.pushed.Sublist (refusedUpdate.filterMap message) ∧
      s.queue.written <+: [.requestOk none, .requestError] := by
  have hrun : run step init refusedUpdate = some _ := rfl
  obtain ⟨-, hpushed, -, -, hfin, hstop⟩ := runWriter_loses_nothing hrun
  refine ⟨_, hrun, rfl, rfl, rfl, (hfin (.inr rfl)).2, hpushed, ?_⟩
  exact (hstop (refusedUpdate.take 6) (.push .requestError true 1) (refusedUpdate.drop 7) _ _ rfl
    rfl ⟨rfl, .inl rfl⟩ rfl).1

/-- The push has appended its message and released the lock: the writer is in its select, there
    is something for it to write, and no token. -/
theorem appended_without_token :
    ∃ s, run step init [.push .requestError true 0] = some s ∧ s.writer = .waiting ∧
      s.queue.outbox ≠ [] ∧ s.queue.outReady = false ∧ s.queue.stopped = true ∧
      s.closed = false := by
  have hrun : run step init [.push .requestError true 0] = some _ := rfl
  exact ⟨_, hrun, rfl, by decide, rfl, rfl, rfl⟩

end QueueWriter
end MoqGo.Relay
