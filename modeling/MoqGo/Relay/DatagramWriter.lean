import MoqGo.Lib.Counts
import MoqGo.Relay.Datagram

/-!
# The datagram writer (`pkg/relay/datagram_writer.go`)

The datagrams for all the subscriptions on one connection go through one bounded queue and one
worker, which the first of them starts. Whatever is queued has **reserved** its place in its
subscription (`BeginDatagram`), whose PUBLISH_DONE waits for it, and so each reservation is to be
released exactly once, whichever way the datagram goes: sent, dropped by the worker because it is
late, drained when the worker ends, or dropped at once by an `enqueue` that finds the queue full.

A reservation is a *ticket* here, numbered as they are made under the writer's lock. The tickets
released and the tickets of the datagrams that are somewhere in the writer are together all that
were given out, each once (`Reserved`). The last of the four ways is the one the worker does not
know of: the release comes after the lock, and then also after the worker's end.
-/

namespace MoqGo.Relay
namespace DatagramWriter

open Lib List

/-! ## The steps -/

/-- `queuedDatagram`, with the number of its reservation. -/
structure QueuedDatagram where
  ticket : Nat
  sub : SubID
  object : ObjectDatagram
  receivedAt : Nat
  deriving DecidableEq

/-- Where `run` is. -/
inductive Worker where
  /-- Not started. -/
  | idle
  /-- The select of its loop. -/
  | selecting
  /-- `send`: the select on `stopCh` and the session. -/
  | looking (d : QueuedDatagram)
  /-- `send`: is it cancelled, or stale? -/
  | judging (d : QueuedDatagram)
  /-- `SendDatagram`. -/
  | transmitting (d : QueuedDatagram)
  /-- `EndDatagram`, of a datagram sent or dropped. -/
  | releasing (d : QueuedDatagram)
  /-- The deferred function: `stop`. -/
  | leaving
  | draining
  /-- `EndDatagram`, of a datagram drained. -/
  | discarding (d : QueuedDatagram)
  | returned
  deriving DecidableEq

structure State where
  subs : SubID → DownstreamSub
  cancelled : SubID → Bool
  queue : Option (List QueuedDatagram)
  /-- With it, `stopCh` is closed. -/
  stopped : Bool
  sessionDone : Bool
  worker : Worker
  /-- The datagrams whose `enqueue` found the queue full and is still to call `EndDatagram`. -/
  full : List QueuedDatagram
  /-- The reservations made, those released, and what `SendDatagram` took. -/
  tickets : Nat
  released : List Nat
  sent : List QueuedDatagram

def init : State where
  subs _ := {}
  cancelled _ := false
  queue := none
  stopped := false
  sessionDone := false
  worker := .idle
  full := []
  tickets := 0
  released := []
  sent := []

namespace State

def queued (s : State) : List QueuedDatagram := s.queue.getD []

/-- `EndDatagram`. -/
def endDatagram (s : State) (d : QueuedDatagram) : State :=
  { s with
    subs := Function.update s.subs d.sub (s.subs d.sub).endDatagram.takeReadyDone.1
    released := s.released ++ [d.ticket] }

def started (s : State) : Worker := if s.queue.isNone then .selecting else s.worker

/-- `enqueue`, once `BeginDatagram` has returned `sub`. -/
def reserve (s : State) (size : Nat) (id : SubID) (sub : DownstreamSub) (object : ObjectDatagram)
    (receivedAt : Nat) : State :=
  let d : QueuedDatagram := ⟨s.tickets, id, object, receivedAt⟩
  let s' := { s with
    subs := Function.update s.subs id sub
    tickets := s.tickets + 1
    worker := s.started }
  if s.queued.length < size then { s' with queue := some (s.queued ++ [d]) }
  else { s' with queue := some s.queued, full := d :: s.full }

end State

inductive Act where
  /-- `enqueue`, under the lock. -/
  | enqueue (id : SubID) (object : ObjectDatagram) (receivedAt : Nat)
  /-- The end of an `enqueue` that found the queue full. -/
  | endFull (d : QueuedDatagram)
  | stop
  | endSession
  /-- Any other call on a subscription. Only the two here count its datagrams. -/
  | change (id : SubID) (sub : DownstreamSub)
  | cancel (id : SubID)
  /-- The worker's steps, in the order of `Worker`; `quit` and `take` are the cases of its
      select. -/
  | quit
  | take
  | look
  | judge (now : Nat)
  | transmit (ok : Bool)
  | release
  | leave
  | drain

section Steps

variable (size maxLag : Nat)

def step (s : State) : Act → Option State
  | .enqueue id object receivedAt =>
    if s.stopped then some s
    else match (s.subs id).beginDatagram with
      | (_, false) => some s
      | (sub, true) => some (s.reserve size id sub object receivedAt)
  | .endFull d =>
    if d ∈ s.full then some { s.endDatagram d with full := s.full.erase d } else none
  | .stop => some { s with stopped := true }
  | .endSession => some { s with sessionDone := true }
  | .change id sub =>
    if sub.datagramsSending = (s.subs id).datagramsSending then
      some { s with subs := Function.update s.subs id sub }
    else none
  | .cancel id => some { s with cancelled := Function.update s.cancelled id true }
  | .quit =>
    if s.worker = .selecting ∧ (s.stopped || s.sessionDone) = true then
      some { s with worker := .leaving }
    else none
  | .take =>
    match s.worker, s.queue with
    | .selecting, some (d :: rest) => some { s with queue := some rest, worker := .looking d }
    | _, _ => none
  | .look =>
    match s.worker with
    | .looking d => some { s with
        worker := if s.stopped || s.sessionDone then .releasing d else .judging d }
    | _ => none
  | .judge now =>
    match s.worker with
    | .judging d => some { s with
        worker := if s.cancelled d.sub || d.receivedAt + maxLag < now then .releasing d
          else .transmitting d }
    | _ => none
  | .transmit ok =>
    match s.worker with
    | .transmitting d => some { s with
        sent := if ok then s.sent ++ [d] else s.sent
        worker := .releasing d }
    | _ => none
  | .release =>
    match s.worker with
    | .releasing d => some { s.endDatagram d with worker := .selecting }
    | .discarding d => some { s.endDatagram d with worker := .draining }
    | _ => none
  | .leave =>
    if s.worker = .leaving then some { s with stopped := true, worker := .draining } else none
  | .drain =>
    match s.worker, s.queued with
    | .draining, d :: rest => some { s with queue := some rest, worker := .discarding d }
    | .draining, [] => some { s with worker := .returned }
    | _, _ => none

end Steps

/-! ## What is reserved -/

def Worker.holding : Worker → List QueuedDatagram
  | .looking d | .judging d | .transmitting d | .releasing d | .discarding d => [d]
  | _ => []

/-- The datagrams queued, being sent or dropped by the worker, and being dropped for a full
    queue. -/
def State.outstanding (s : State) : List QueuedDatagram :=
  s.full ++ s.worker.holding ++ s.queued

/-- Every ticket was released once or is outstanding once, and each subscription counts those of
    its own. -/
structure Reserved (s : State) : Prop where
  once : (s.released ++ s.outstanding.map (·.ticket)).Perm (List.range s.tickets)
  counts : ∀ id, (s.subs id).datagramsSending = (s.outstanding.countP (·.sub = id) : Nat)

theorem reserved_init : Reserved init := ⟨List.Perm.nil, fun _ => rfl⟩

variable {size maxLag : Nat} {s s' : State} {d : QueuedDatagram} {id : SubID}
  {sub : DownstreamSub}

theorem takeReadyDone_datagramsSending (sub : DownstreamSub) :
    sub.takeReadyDone.1.datagramsSending = sub.datagramsSending := by
  unfold DownstreamSub.takeReadyDone
  split
  · rfl
  · split <;> rfl

theorem Reserved.moves (h : Reserved s) (htickets : s'.tickets = s.tickets)
    (hreleased : s'.released = s.released)
    (hsubs : ∀ id, (s'.subs id).datagramsSending = (s.subs id).datagramsSending)
    (hperm : s'.outstanding.Perm s.outstanding) : Reserved s' := by
  refine ⟨?_, fun id => ?_⟩
  · rw [htickets, hreleased]
    exact ((hperm.map _).append_left _).trans h.once
  · rw [hsubs id, h.counts id, hperm.countP_eq]

theorem Reserved.begins (h : Reserved s) (htickets : s'.tickets = s.tickets + 1)
    (hreleased : s'.released = s.released) (hd : d.ticket = s.tickets)
    (hsubs : s'.subs = Function.update s.subs d.sub sub)
    (hsub : sub.datagramsSending = (s.subs d.sub).datagramsSending + 1)
    (hperm : s'.outstanding.Perm (d :: s.outstanding)) : Reserved s' := by
  refine ⟨?_, fun id => ?_⟩
  · rw [htickets, hreleased, range_succ]
    have hmap := (hperm.map (·.ticket)).append_left s.released
    rw [map_cons, hd] at hmap
    refine hmap.trans (perm_middle.trans ?_)
    exact (h.once.cons _).trans (perm_append_singleton _ _).symm
  · rw [hsubs, hperm.countP_eq, countP_cons_toNat]
    rcases eq_or_ne id d.sub with rfl | hne
    · simp [hsub, h.counts]
    · simp [hne, hne.symm, h.counts]

theorem Reserved.ends (h : Reserved s) (htickets : s'.tickets = s.tickets)
    (hreleased : s'.released = s.released ++ [d.ticket])
    (hsubs : s'.subs = (s.endDatagram d).subs)
    (hperm : s.outstanding.Perm (d :: s'.outstanding)) : Reserved s' := by
  refine ⟨?_, fun id => ?_⟩
  · rw [htickets, hreleased, append_assoc]
    have hmap := (hperm.map (·.ticket)).append_left s.released
    exact hmap.symm.trans h.once
  · have hcount := h.counts id
    rw [hperm.countP_eq, countP_cons_toNat] at hcount
    rw [hsubs, State.endDatagram]
    rcases eq_or_ne id d.sub with rfl | hne
    · simp only [Function.update_self, takeReadyDone_datagramsSending, DownstreamSub.endDatagram]
      simp only [decide_true, Bool.toNat_true] at hcount
      omega
    · simpa [hne, hne.symm] using hcount

theorem apply_started {β : Type} (f : Worker → β) (hf : f .selecting = f .idle)
    (hstarted : s.queue = none → s.worker = .idle) : f s.started = f s.worker := by
  unfold State.started
  split
  · next hq => rw [hf, hstarted (Option.isNone_iff_eq_none.mp hq)]
  · rfl

theorem Reserved.reserve (h : Reserved s) (hstarted : s.queue = none → s.worker = .idle)
    (hsub : sub.datagramsSending = (s.subs id).datagramsSending + 1) (object : ObjectDatagram)
    (receivedAt : Nat) : Reserved (s.reserve size id sub object receivedAt) := by
  have hholding := apply_started Worker.holding rfl hstarted
  simp only [State.reserve]
  split
  · refine h.begins (d := ⟨s.tickets, id, object, receivedAt⟩) rfl rfl rfl rfl hsub ?_
    simp only [State.outstanding, hholding]
    refine List.Perm.trans (List.Perm.of_eq ?_) (perm_append_singleton _ _)
    exact (append_assoc _ _ _).symm
  · refine h.begins (d := ⟨s.tickets, id, object, receivedAt⟩) rfl rfl rfl rfl hsub ?_
    simp only [State.outstanding, hholding]
    exact List.Perm.refl _

theorem beginDatagram_eq_true (h : (s.subs id).beginDatagram = (sub, true)) :
    sub.datagramsSending = (s.subs id).datagramsSending + 1 := by
  unfold DownstreamSub.beginDatagram at h
  split at h
  · cases h
  · obtain ⟨rfl, -⟩ := Prod.mk.inj h
    rfl

theorem Reserved.step {a : Act} (h : Reserved s) (hstarted : s.queue = none → s.worker = .idle)
    (hs : step size maxLag s a = some s') : Reserved s' := by
  cases a with
  | enqueue id object receivedAt =>
    simp only [DatagramWriter.step] at hs
    split at hs
    · cases hs
      exact h
    · split at hs <;> cases hs
      · exact h
      · next hbegin => exact h.reserve hstarted (beginDatagram_eq_true hbegin) object receivedAt
  | endFull d =>
    obtain ⟨hd, rfl⟩ := guard_iff.mp hs
    refine h.ends rfl rfl rfl ?_
    exact ((perm_cons_erase hd).append_right _).append_right _
  | stop | endSession | cancel id =>
    cases hs
    exact h.moves rfl rfl (fun _ => rfl) (List.Perm.refl _)
  | change id sub =>
    obtain ⟨hsub, rfl⟩ := guard_iff.mp hs
    refine h.moves rfl rfl (fun id' => ?_) (List.Perm.refl _)
    rcases eq_or_ne id' id with rfl | hne
    · simpa using hsub
    · simp [hne]
  | quit | leave =>
    obtain ⟨hw, rfl⟩ := guard_iff.mp hs
    refine h.moves rfl rfl (fun _ => rfl) ?_
    simp [State.outstanding, State.queued, hw, Worker.holding]
  | take =>
    simp only [DatagramWriter.step] at hs
    split at hs <;> cases hs
    next hw hq =>
    refine h.moves rfl rfl (fun _ => rfl) ?_
    simp [State.outstanding, State.queued, hw, hq, Worker.holding]
  | look | judge now =>
    simp only [DatagramWriter.step] at hs
    split at hs <;> cases hs
    next hw =>
    refine h.moves rfl rfl (fun _ => rfl) ?_
    simp only [State.outstanding, State.queued, hw]
    split <;> exact List.Perm.refl _
  | transmit ok =>
    simp only [DatagramWriter.step] at hs
    split at hs <;> cases hs
    next hw =>
    refine h.moves rfl rfl (fun _ => rfl) ?_
    simp [State.outstanding, State.queued, hw, Worker.holding]
  | release =>
    simp only [DatagramWriter.step] at hs
    split at hs <;> cases hs
    all_goals
      next hw =>
      refine h.ends rfl rfl rfl ?_
      simp [State.outstanding, State.queued, State.endDatagram, hw, Worker.holding]
  | drain =>
    simp only [DatagramWriter.step] at hs
    split at hs <;> cases hs
    · next hw hq =>
      refine h.moves rfl rfl (fun _ => rfl) ?_
      simp only [State.outstanding, hw, hq]
      simp [State.queued, Worker.holding]
    · next hw hq =>
      refine h.moves rfl rfl (fun _ => rfl) ?_
      simp [State.outstanding, State.queued, hw, Worker.holding]

/-! ## The order, and the worker's end -/

def Worker.unsent : Worker → List QueuedDatagram
  | .looking d | .judging d | .transmitting d => [d]
  | _ => []

def Worker.ending : Worker → Bool
  | .draining | .discarding _ | .returned => true
  | _ => false

def State.line (s : State) : List QueuedDatagram := s.sent ++ s.worker.unsent ++ s.queued

structure Ordered (s : State) : Prop where
  started : s.queue = none → s.worker = .idle
  line : (s.line.map (·.ticket)).Pairwise (· < ·)
  bound : ∀ d ∈ s.line, d.ticket < s.tickets
  stopped : s.worker.ending = true → s.stopped = true
  empty : s.worker = .returned → s.queued = []

theorem ordered_init : Ordered init where
  started _ := rfl
  line := List.Pairwise.nil
  bound := nofun
  stopped := nofun
  empty := nofun

theorem Ordered.moves (h : Ordered s) (htickets : s'.tickets = s.tickets)
    (hstarted : s'.queue = none → s'.worker = .idle) (hline : s'.line.Sublist s.line)
    (hstopped : s'.worker.ending = true → s'.stopped = true)
    (hempty : s'.worker = .returned → s'.queued = []) : Ordered s' where
  started := hstarted
  line := h.line.sublist (hline.map _)
  bound d hd := htickets ▸ h.bound d (hline.subset hd)
  stopped := hstopped
  empty := hempty

/-- A step that brings the next ticket, which comes last if it is queued at all. -/
theorem Ordered.comes (h : Ordered s) (htickets : s'.tickets = s.tickets + 1)
    (hd : d.ticket = s.tickets) (hqueue : s'.queue ≠ none)
    (hline : s'.line.Sublist (s.line ++ [d])) (hending : s'.worker.ending = false) :
    Ordered s' := by
  refine ⟨fun hq => absurd hq hqueue, ?_, fun e he => ?_, fun hw => ?_, fun hw => ?_⟩
  · refine List.Pairwise.sublist (hline.map _) ?_
    rw [map_append]
    refine pairwise_append.mpr ⟨h.line, pairwise_singleton _ _, ?_⟩
    intro t ht u hu
    obtain ⟨e, he, rfl⟩ := mem_map.mp ht
    obtain rfl := mem_singleton.mp hu
    show e.ticket < d.ticket
    rw [hd]
    exact h.bound e he
  · rw [htickets]
    rcases mem_append.mp (hline.subset he) with he | he
    · exact Nat.lt_succ_of_lt (h.bound e he)
    · obtain rfl := mem_singleton.mp he
      exact hd ▸ Nat.lt_succ_self _
  · rw [hending] at hw
    cases hw
  · rw [hw] at hending
    cases hending

theorem Ordered.reserve (h : Ordered s) (hopen : s.stopped = false) (object : ObjectDatagram)
    (receivedAt : Nat) : Ordered (s.reserve size id sub object receivedAt) := by
  have hrunning : s.worker.ending = false :=
    Bool.eq_false_iff.mpr fun hending => by simp [h.stopped hending] at hopen
  have hending : s.started.ending = false :=
    (apply_started Worker.ending rfl h.started).trans hrunning
  have hunsent := apply_started Worker.unsent rfl h.started
  simp only [State.reserve]
  split
  · refine h.comes (d := ⟨s.tickets, id, object, receivedAt⟩) rfl rfl nofun ?_ hending
    simp [State.line, hunsent, State.queued]
  · refine h.comes (d := ⟨s.tickets, id, object, receivedAt⟩) rfl rfl nofun ?_ hending
    simp [State.line, hunsent, State.queued]

theorem Ordered.step {a : Act} (h : Ordered s) (hs : step size maxLag s a = some s') :
    Ordered s' := by
  cases a with
  | enqueue id object receivedAt =>
    simp only [DatagramWriter.step] at hs
    split at hs
    · cases hs
      exact h
    · next hopen =>
      split at hs <;> cases hs
      · exact h
      · exact h.reserve (by simpa using hopen) object receivedAt
  | endFull d =>
    obtain ⟨-, rfl⟩ := guard_iff.mp hs
    exact h.moves rfl h.started (List.Sublist.refl _) h.stopped h.empty
  | stop =>
    cases hs
    exact h.moves rfl h.started (List.Sublist.refl _) (fun _ => rfl) h.empty
  | endSession | cancel id =>
    cases hs
    exact h.moves rfl h.started (List.Sublist.refl _) h.stopped h.empty
  | change id sub =>
    obtain ⟨-, rfl⟩ := guard_iff.mp hs
    exact h.moves rfl h.started (List.Sublist.refl _) h.stopped h.empty
  | quit =>
    obtain ⟨⟨hw, -⟩, rfl⟩ := guard_iff.mp hs
    refine h.moves rfl (fun hq => ?_) ?_ nofun nofun
    · rw [h.started hq] at hw
      cases hw
    · simp [State.line, State.queued, hw, Worker.unsent]
  | take =>
    simp only [DatagramWriter.step] at hs
    split at hs <;> cases hs
    next hw hq =>
    refine h.moves rfl nofun ?_ nofun nofun
    simp [State.line, State.queued, hw, hq, Worker.unsent]
  | look | judge now =>
    simp only [DatagramWriter.step] at hs
    split at hs <;> cases hs
    next d hw =>
    have hstarted : s.queue ≠ none := fun hq => by simp [h.started hq] at hw
    split
    all_goals
      refine h.moves rfl (fun hq => absurd hq hstarted) ?_ nofun nofun
      simp [State.line, State.queued, hw, Worker.unsent]
  | transmit ok =>
    simp only [DatagramWriter.step] at hs
    split at hs <;> cases hs
    next d hw =>
    have hstarted : s.queue ≠ none := fun hq => by simp [h.started hq] at hw
    refine h.moves rfl (fun hq => absurd hq hstarted) ?_ nofun nofun
    cases ok <;> simp [State.line, State.queued, hw, Worker.unsent]
  | release =>
    simp only [DatagramWriter.step] at hs
    split at hs <;> cases hs
    · next d hw =>
      have hstarted : s.queue ≠ none := fun hq => by simp [h.started hq] at hw
      refine h.moves rfl (fun hq => absurd hq hstarted) ?_ nofun nofun
      simp [State.line, State.queued, State.endDatagram, hw, Worker.unsent]
    · next d hw =>
      have hstarted : s.queue ≠ none := fun hq => by simp [h.started hq] at hw
      have hstopped : s.stopped = true := h.stopped (by simp [hw, Worker.ending])
      refine h.moves rfl (fun hq => absurd hq hstarted) ?_ (fun _ => hstopped) nofun
      simp [State.line, State.queued, State.endDatagram, hw, Worker.unsent]
  | leave =>
    obtain ⟨hw, rfl⟩ := guard_iff.mp hs
    have hstarted : s.queue ≠ none := fun hq => by simp [h.started hq] at hw
    refine h.moves rfl (fun hq => absurd hq hstarted) ?_ (fun _ => rfl) nofun
    simp [State.line, State.queued, hw, Worker.unsent]
  | drain =>
    simp only [DatagramWriter.step] at hs
    split at hs <;> cases hs
    · next d rest hw hq =>
      have hstopped : s.stopped = true := h.stopped (by simp [hw, Worker.ending])
      refine h.moves rfl nofun ?_ (fun _ => hstopped) nofun
      simp only [State.line, hw, hq]
      simp [State.queued, Worker.unsent]
    · next hw hq =>
      have hstarted : s.queue ≠ none := fun hq => by simp [h.started hq] at hw
      have hstopped : s.stopped = true := h.stopped (by simp [hw, Worker.ending])
      refine h.moves rfl (fun hq => absurd hq hstarted) ?_ (fun _ => hstopped) fun _ => hq
      simp [State.line, State.queued, hw, Worker.unsent]

/-! ## Every run -/

theorem run_ordered {acts : List Act} (hrun : run (step size maxLag) init acts = some s) :
    Reserved s ∧ Ordered s :=
  run_inv (P := fun s => Reserved s ∧ Ordered s)
    (fun _ _ _ h hs => ⟨h.1.step h.2.started hs, h.2.step hs⟩) ⟨reserved_init, ordered_init⟩ hrun

/-- **Each reservation is released exactly once.** In every state the tickets released and those
    of the datagrams queued, with the worker, or being dropped for a full queue are all that were
    given out, each once, and each subscription counts its outstanding ones; the datagrams sent
    were sent in the order of their tickets; and once the worker has returned the queue is empty
    and only an `enqueue` that found it full may have a ticket still to release. -/
theorem reservations_released_once {acts : List Act}
    (hrun : run (step size maxLag) init acts = some s) :
    (s.released ++ s.outstanding.map (·.ticket)).Perm (List.range s.tickets) ∧
      (∀ id, (s.subs id).datagramsSending = (s.outstanding.countP (·.sub = id) : Nat)) ∧
      (s.sent.map (·.ticket)).Pairwise (· < ·) ∧
      (s.worker = .returned → s.queued = [] ∧ s.outstanding = s.full ∧
        (s.full = [] → s.released.Perm (List.range s.tickets))) := by
  obtain ⟨hreserved, hordered⟩ := run_ordered hrun
  refine ⟨hreserved.once, hreserved.counts, ?_, fun hw => ?_⟩
  · have hsub : s.sent.Sublist s.line := by
      rw [State.line, append_assoc]
      exact sublist_append_left _ _
    exact hordered.line.sublist (hsub.map _)
  · have hempty := hordered.empty hw
    have hout : s.outstanding = s.full := by
      simp [State.outstanding, hempty, hw, Worker.holding]
    refine ⟨hempty, hout, fun hfull => ?_⟩
    have honce := hreserved.once
    rw [hout, hfull] at honce
    simpa using honce

/-- A datagram is sent, one finds the queue full, and one is queued after the session has ended
    and the worker has seen it. -/
def lateEnqueue : List Act :=
  [.enqueue 0 default 5, .take, .look, .judge 6, .enqueue 1 default 6, .enqueue 0 default 7,
    .transmit true, .release, .take, .endSession, .look, .release, .quit, .enqueue 1 default 8,
    .leave, .drain, .release, .drain, .endFull ⟨2, 0, default, 7⟩]

theorem reservations_released_once_lateEnqueue :
    ∃ s, run (step 1 100) init lateEnqueue = some s ∧ s.worker = .returned ∧ s.tickets = 4 ∧
      s.sent = [⟨0, 0, default, 5⟩] ∧ s.queued = [] ∧
      s.released.Perm (List.range 4) ∧ ∀ id, (s.subs id).datagramsSending = 0 := by
  have hrun : run (step 1 100) init lateEnqueue = some _ := rfl
  obtain ⟨-, hcounts, -, hreturned⟩ := reservations_released_once hrun
  obtain ⟨hqueued, -, hreleased⟩ := hreturned rfl
  exact ⟨_, hrun, rfl, rfl, rfl, hqueued, hreleased rfl, hcounts⟩

/-- The queue holds one datagram and the second finds it full. Before that `enqueue` comes to its
    `EndDatagram`, the writer is stopped and the worker drains the queue and returns. -/
theorem returned_before_release :
    ∃ s, run (step 1 100) init [.enqueue 0 default 0, .enqueue 0 default 0, .stop, .quit,
        .leave, .drain, .release, .drain] = some s ∧
      s.worker = .returned ∧ s.tickets = 2 ∧ s.released = [0] ∧
      (s.subs 0).datagramsSending = 1 := by
  have hrun : run (step 1 100) init [.enqueue 0 default 0, .enqueue 0 default 0, .stop, .quit,
      .leave, .drain, .release, .drain] = some _ := rfl
  exact ⟨_, hrun, rfl, rfl, rfl, rfl⟩

end DatagramWriter
end MoqGo.Relay
