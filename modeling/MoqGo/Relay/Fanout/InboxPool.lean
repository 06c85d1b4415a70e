import Mathlib.Data.List.Nodup
import MoqGo.Lib.Runs

/-!
# The pool of inboxes (`pkg/relay/subgroup_inbox.go`)

The inbox of a `subgroupWriter` is a channel from a pool, which takes it back when the writer
ends and hands it to another one. Such a channel is never closed: what ends a writer is a second
channel, `inboxDone`. So a producer that is late, or a writer that leaves its loop with Objects
still queued, could bring the Objects of one Subgroup into another.

A writer's steps are written as a function of the writer and **of the contents of the one channel
it has** (`Writer.step`); what they keep is a fact about these two (`Sound`). That the channel is
the writer's own is kept apart from it (`Owned`): only `open` and the end of `put` move a channel,
and no writer's step touches another's.

`published`, `taken` and `discarded` are written and never read.
-/

namespace MoqGo.Relay
namespace Inboxes

abbrev WriterID := Nat

/-- A channel that `get` has made. -/
abbrev ChanID := Nat

/-- An Object in a channel, with the writer it was published to. -/
structure Sent (α : Type) where
  writer : WriterID
  object : α
  deriving DecidableEq

/-! ## A writer -/

/-- Where a writer's goroutine is. -/
inductive Stage where
  /-- `nextObject`, at its first, second and third select. -/
  | polling
  | waiting
  | last
  /-- With the Object it has taken. -/
  | handling
  /-- Out of its loop, at `finishStream`. -/
  | finishing
  /-- `releaseInbox`, before and after its locked part. -/
  | releasing
  | putting (ch : ChanID)
  | returned
  deriving DecidableEq

/-- `subgroupWriter`, as far as its inbox is concerned. -/
structure Writer (α : Type) where
  inbox : Option ChanID := none
  closed : Bool := true
  /-- `close` has run its locked part; `inboxDone` is closed. -/
  closeCalled : Bool := false
  inboxDone : Bool := false
  stage : Stage := .returned
  lagExceeded : Bool := false
  published : List (Sent α) := []
  taken : List (Sent α) := []
  discarded : List (Sent α) := []
  deriving DecidableEq

variable {α : Type}

/-- The channel the writer has: its inbox, or the one it is putting back. -/
def Writer.channel (w : Writer α) : Option ChanID :=
  match w.stage with
  | .putting ch => some ch
  | _ => w.inbox

inductive WriterAct (α : Type) where
  | publish (object : α)
  /-- `close`: its locked part, then `close(w.inboxDone)`. -/
  | close
  | closeDone
  /-- `nextObject`: the first select; the two cases of the second; the third. -/
  | poll
  | receive
  | seeDone
  | look
  /-- The loop's body: `failWrites`, the next round, the break for lag. -/
  | failWrites
  | next
  | lag
  /-- `finishStream`, which may find the drop cap exceeded. -/
  | finish (dropCapped : Bool)
  /-- `releaseInbox`, its locked part. -/
  | release
  /-- `put` receives an Object and forgets it. -/
  | discard

namespace Writer

/-- The writer takes the first Object of its channel. -/
def take (w : Writer α) (x : Sent α) : Writer α :=
  { w with stage := .handling, taken := w.taken ++ [x] }

/-- A step of writer `id`, with the contents of its channel. `size` is the channels' capacity. -/
def step (size : Nat) (id : WriterID) (w : Writer α) (q : List (Sent α)) :
    WriterAct α → Option (Writer α × List (Sent α))
  | .publish object =>
    if w.closed then some (w, q)
    else if w.inbox.isSome ∧ q.length < size then
      some ({ w with published := w.published ++ [⟨id, object⟩] }, q ++ [⟨id, object⟩])
    else some (w, q)
  | .close =>
    if w.closeCalled then none else some ({ w with closed := true, closeCalled := true }, q)
  | .closeDone =>
    if w.closeCalled ∧ ¬ w.inboxDone then some ({ w with inboxDone := true }, q) else none
  | .poll =>
    match w.stage, q with
    | .polling, x :: rest => some (w.take x, rest)
    | .polling, [] => some ({ w with stage := .waiting }, [])
    | _, _ => none
  | .receive =>
    match w.stage, q with
    | .waiting, x :: rest => some (w.take x, rest)
    | _, _ => none
  | .seeDone =>
    if w.stage = .waiting ∧ w.inboxDone then some ({ w with stage := .last }, q) else none
  | .look =>
    match w.stage, q with
    | .last, x :: rest => some (w.take x, rest)
    | .last, [] => some ({ w with stage := .finishing }, [])
    | _, _ => none
  | .failWrites => if w.stage = .handling then some ({ w with closed := true }, q) else none
  | .next => if w.stage = .handling then some ({ w with stage := .polling }, q) else none
  | .lag =>
    if w.stage = .handling then some ({ w with stage := .finishing, lagExceeded := true }, q)
    else none
  | .finish dropCapped =>
    if w.stage = .finishing then
      some ({ w with
        stage := .releasing
        closed := w.closed || w.lagExceeded || dropCapped }, q)
    else none
  | .release =>
    match w.stage, w.inbox with
    | .releasing, some ch =>
      some ({ w with closed := true, inbox := none, stage := .putting ch }, q)
    | _, _ => none
  | .discard =>
    match w.stage, q with
    | .putting _, x :: rest => some ({ w with discarded := w.discarded ++ [x] }, rest)
    | _, _ => none

end Writer

/-! ## The pool -/

def maxCachedSubgroupInboxes : Nat := 1024

structure State (α : Type) where
  /-- What the channels hold. -/
  chans : ChanID → List (Sent α)
  /-- The channels made, and the writers opened, so far. -/
  made : Nat
  opened : Nat
  free : List ChanID
  writers : WriterID → Writer α

def init : State α := ⟨fun _ => [], 0, 0, [], fun _ => {}⟩

inductive Act (α : Type) where
  /-- `openWriterForSub`: `get`, and the writer with the channel it returns. -/
  | openWriter
  | act (id : WriterID) (a : WriterAct α)
  /-- `put` finds the channel empty. -/
  | put (id : WriterID)

namespace State

/-- What the writer's channel holds. -/
def contents (s : State α) (id : WriterID) : List (Sent α) :=
  match (s.writers id).channel with
  | some ch => s.chans ch
  | none => []

/-- The writer and its channel after a step. -/
def setWriter (s : State α) (id : WriterID) (w : Writer α) (q : List (Sent α)) : State α :=
  { s with
    writers := Function.update s.writers id w
    chans := match (s.writers id).channel with
      | some ch => Function.update s.chans ch q
      | none => s.chans }

/-- A writer with the channel `ch`. -/
def spawn (s : State α) (ch : ChanID) : State α :=
  { s with
    opened := s.opened + 1
    writers := Function.update s.writers s.opened
      { inbox := some ch, closed := false, stage := .polling } }

end State

def step (size : Nat) (s : State α) : Act α → Option (State α)
  | .openWriter =>
    match s.free with
    | ch :: free => some ({ s with free := free }.spawn ch)
    | [] => some ({ s with made := s.made + 1 }.spawn s.made)
  | .act id a =>
    ((s.writers id).step size id (s.contents id) a).map fun (w, q) => s.setWriter id w q
  | .put id =>
    match (s.writers id).stage, s.contents id with
    | .putting ch, [] => some { s with
        writers := Function.update s.writers id { s.writers id with stage := .returned }
        free := if s.free.length < maxCachedSubgroupInboxes then s.free ++ [ch] else s.free }
    | _, _ => none

/-! ## What a writer keeps -/

/-- The writer is out of its loop. -/
def Stage.left : Stage → Bool
  | .finishing | .releasing | .putting _ | .returned => true
  | _ => false

/-- The writer has given its inbox up. -/
def Stage.released : Stage → Bool
  | .putting _ | .returned => true
  | _ => false

/-- What holds of writer `id` and the contents of its channel. -/
structure Sound (id : WriterID) (w : Writer α) (q : List (Sent α)) : Prop where
  /-- What was published to it was taken by it, or discarded by its `put`, or is in its channel,
      in this order. -/
  accounts : w.published = w.taken ++ w.discarded ++ q
  own : ∀ x ∈ w.published, x.writer = id
  /-- Only `put` discards. -/
  discards : w.stage.released = false → w.discarded = []
  called : w.closeCalled = true → w.closed = true
  done : w.inboxDone = true → w.closed = true
  last : w.stage = .last → w.inboxDone = true
  inbox : w.inbox = none ↔ w.stage.released = true
  released : w.stage.released = true → w.closed = true
  /-- A writer that did not leave its loop for lag has nothing left, and gets nothing more. -/
  drained : w.stage.left = true → w.lagExceeded = false →
    w.closed = true ∧ w.discarded = [] ∧ q = []

variable {size : Nat} {id : WriterID} {w w' : Writer α} {q q' : List (Sent α)} {ch : ChanID}
  {a : WriterAct α}

theorem sound_unopened (id : WriterID) : Sound id ({} : Writer α) [] where
  accounts := rfl
  own := nofun
  discards _ := rfl
  called := nofun
  done := nofun
  last := nofun
  inbox := ⟨fun _ => rfl, fun _ => rfl⟩
  released _ := rfl
  drained _ _ := ⟨rfl, rfl, rfl⟩

theorem sound_opened (id : WriterID) (ch : ChanID) :
    Sound id ({ inbox := some ch, closed := false, stage := .polling } : Writer α) [] where
  accounts := rfl
  own := nofun
  discards _ := rfl
  called := nofun
  done := nofun
  last := nofun
  inbox := ⟨nofun, nofun⟩
  released := nofun
  drained := nofun

theorem Sound.stage (h : Sound id w q) (stage : Stage)
    (hreleased : w.stage.released = stage.released) (hlast : stage = .last → w.inboxDone = true)
    (hdrained : stage.left = true → w.lagExceeded = false →
      w.closed = true ∧ w.discarded = [] ∧ q = []) : Sound id { w with stage := stage } q := by
  refine ⟨h.accounts, h.own, fun hr => h.discards (hreleased.trans hr), h.called, h.done, hlast,
    ?_, fun hr => h.released (hreleased.trans hr), hdrained⟩
  rw [← hreleased]
  exact h.inbox

theorem Sound.take {x : Sent α} {rest : List (Sent α)} (h : Sound id w (x :: rest))
    (hin : w.stage.released = false) : Sound id (w.take x) rest := by
  have hhandling : Sound id { w with stage := .handling } (x :: rest) :=
    h.stage .handling hin nofun nofun
  refine ⟨?_, h.own, hhandling.discards, h.called, h.done, nofun, hhandling.inbox, nofun, nofun⟩
  simpa [Writer.take, h.discards hin] using h.accounts

theorem Sound.publish (h : Sound id w q) (hopen : w.closed = false) (object : α) :
    Sound id { w with published := w.published ++ [⟨id, object⟩] } (q ++ [⟨id, object⟩]) := by
  have hclosed : ¬ w.closed = true := by simp [hopen]
  refine ⟨?_, fun x hx => ?_, h.discards, h.called, h.done, h.last, h.inbox, h.released,
    fun hl hlag => absurd (h.drained hl hlag).1 hclosed⟩
  · simp [h.accounts]
  · rcases List.mem_append.mp hx with hx | hx
    · exact h.own x hx
    · obtain rfl := List.mem_singleton.mp hx
      rfl

theorem Sound.closes (h : Sound id w q) (closeCalled : Bool) :
    Sound id { w with closed := true, closeCalled := closeCalled } q :=
  ⟨h.accounts, h.own, h.discards, fun _ => rfl, fun _ => rfl, h.last, h.inbox, fun _ => rfl,
    fun hl hlag => ⟨rfl, (h.drained hl hlag).2⟩⟩

/-- `nextObject` reports the end: `inboxDone` was closed, and the channel is empty after that. -/
theorem Sound.ends (h : Sound id w []) (hlast : w.stage = .last) :
    Sound id { w with stage := .finishing } [] := by
  have hreleased : w.stage.released = false := by rw [hlast]; rfl
  exact h.stage .finishing hreleased nofun fun _ _ =>
    ⟨h.done (h.last hlast), h.discards hreleased, rfl⟩

theorem Sound.lags (h : Sound id w q) (hhandling : w.stage = .handling) :
    Sound id { w with stage := .finishing, lagExceeded := true } q := by
  have hdiscarded := h.discards (by rw [hhandling]; rfl)
  have hinbox := h.inbox
  rw [hhandling] at hinbox
  exact ⟨h.accounts, h.own, fun _ => hdiscarded, h.called, h.done, nofun, hinbox, nofun, nofun⟩

theorem Sound.finish (h : Sound id w q) (hfinishing : w.stage = .finishing) (capped : Bool) :
    Sound id { w with
      stage := .releasing
      closed := w.closed || w.lagExceeded || capped } q := by
  have hdiscarded := h.discards (by rw [hfinishing]; rfl)
  have hinbox := h.inbox
  have hdrained := h.drained
  rw [hfinishing] at hinbox hdrained
  refine ⟨h.accounts, h.own, fun _ => hdiscarded, fun hc => ?_, fun hd => ?_, nofun, hinbox, nofun,
    fun _ hlag => ?_⟩
  · simp [h.called hc]
  · simp [h.done hd]
  · obtain ⟨hclosed, hrest⟩ := hdrained rfl hlag
    exact ⟨by simp [hclosed], hrest⟩

theorem Sound.release (h : Sound id w q) (hreleasing : w.stage = .releasing) (ch : ChanID) :
    Sound id { w with closed := true, inbox := none, stage := .putting ch } q := by
  have hdrained := h.drained
  rw [hreleasing] at hdrained
  exact ⟨h.accounts, h.own, nofun, fun _ => rfl, fun _ => rfl, nofun, ⟨fun _ => rfl, fun _ => rfl⟩,
    fun _ => rfl, fun _ hlag => ⟨rfl, (hdrained rfl hlag).2⟩⟩

theorem Sound.discard {x : Sent α} {rest : List (Sent α)} (h : Sound id w (x :: rest))
    (hputting : w.stage = .putting ch) :
    Sound id { w with discarded := w.discarded ++ [x] } rest := by
  have hstage : w.stage.left = true ∧ w.stage.released = true := by
    rw [hputting]
    exact ⟨rfl, rfl⟩
  refine ⟨?_, h.own, fun hr => ?_, h.called, h.done, h.last, h.inbox, h.released, fun hl hlag => ?_⟩
  · simp [h.accounts]
  · rw [hstage.2] at hr
    cases hr
  · cases (h.drained hl hlag).2.2

theorem Sound.step (h : Sound id w q) (hs : w.step size id q a = some (w', q')) :
    Sound id w' q' := by
  cases a with
  | publish object =>
    simp only [Writer.step] at hs
    split at hs
    · cases hs
      exact h
    · next hopen =>
      split at hs <;> cases hs
      · exact h.publish (by simpa using hopen) object
      · exact h
  | close =>
    simp only [Writer.step, Lib.unless_iff] at hs
    obtain ⟨-, hs⟩ := hs
    cases hs
    exact h.closes true
  | closeDone =>
    obtain ⟨⟨hcalled, -⟩, hs⟩ := Lib.guard_iff.mp hs
    cases hs
    exact ⟨h.accounts, h.own, h.discards, h.called, fun _ => h.called hcalled, fun _ => rfl,
      h.inbox, h.released, h.drained⟩
  | poll =>
    simp only [Writer.step] at hs
    split at hs <;> cases hs
    · next hw => exact h.take (by rw [hw]; rfl)
    · next hw => exact h.stage .waiting (by rw [hw]; rfl) nofun nofun
  | receive =>
    simp only [Writer.step] at hs
    split at hs <;> cases hs
    next hw => exact h.take (by rw [hw]; rfl)
  | seeDone =>
    obtain ⟨⟨hw, hdone⟩, hs⟩ := Lib.guard_iff.mp hs
    cases hs
    exact h.stage .last (by rw [hw]; rfl) (fun _ => hdone) nofun
  | look =>
    simp only [Writer.step] at hs
    split at hs <;> cases hs
    · next hw => exact h.take (by rw [hw]; rfl)
    · next hw => exact h.ends hw
  | failWrites =>
    obtain ⟨-, hs⟩ := Lib.guard_iff.mp hs
    cases hs
    exact h.closes w.closeCalled
  | next =>
    obtain ⟨hw, hs⟩ := Lib.guard_iff.mp hs
    cases hs
    exact h.stage .polling (by rw [hw]; rfl) nofun nofun
  | lag =>
    obtain ⟨hw, hs⟩ := Lib.guard_iff.mp hs
    cases hs
    exact h.lags hw
  | finish capped =>
    obtain ⟨hw, hs⟩ := Lib.guard_iff.mp hs
    cases hs
    exact h.finish hw capped
  | release =>
    simp only [Writer.step] at hs
    split at hs <;> cases hs
    next ch hw _ => exact h.release hw ch
  | discard =>
    simp only [Writer.step] at hs
    split at hs <;> cases hs
    next hw => exact h.discard hw

/-! ## Whose channel it is -/

theorem channel_step (hs : w.step size id q a = some (w', q')) :
    w'.channel = w.channel ∧ (w.channel = none → q = [] → q' = []) := by
  cases a with
  | publish object =>
    simp only [Writer.step] at hs
    split at hs
    · cases hs
      exact ⟨rfl, fun _ hq => hq⟩
    · split at hs <;> cases hs
      · next hsome =>
        refine ⟨rfl, fun hnone => ?_⟩
        unfold Writer.channel at hnone
        split at hnone
        · cases hnone
        · simp [hnone] at hsome
      · exact ⟨rfl, fun _ hq => hq⟩
  | close =>
    simp only [Writer.step, Lib.unless_iff] at hs
    obtain ⟨-, hs⟩ := hs
    cases hs
    exact ⟨rfl, fun _ hq => hq⟩
  | closeDone | failWrites =>
    obtain ⟨-, hs⟩ := Lib.guard_iff.mp hs
    cases hs
    exact ⟨rfl, fun _ hq => hq⟩
  | poll | receive | look =>
    simp only [Writer.step] at hs
    split at hs <;> cases hs
    all_goals next hw => simp [Writer.channel, Writer.take, hw]
  | seeDone | next | lag | finish capped =>
    obtain ⟨hw, hs⟩ := Lib.guard_iff.mp hs
    cases hs
    simp [Writer.channel, hw]
  | release =>
    simp only [Writer.step] at hs
    split at hs <;> cases hs
    next ch hw hinbox => simp [Writer.channel, hw, hinbox]
  | discard =>
    simp only [Writer.step] at hs
    split at hs <;> cases hs
    exact ⟨rfl, fun _ => nofun⟩

/-- No channel has two owners, the free list being one; and what nobody has is empty. -/
structure Owned (s : State α) : Prop where
  made : ∀ id ch, (s.writers id).channel = some ch → ch < s.made
  one : ∀ id id' ch, (s.writers id).channel = some ch → (s.writers id').channel = some ch →
    id = id'
  freeMade : ∀ ch ∈ s.free, ch < s.made
  nodup : s.free.Nodup
  apart : ∀ id ch, (s.writers id).channel = some ch → ch ∉ s.free
  empty : ∀ ch ∈ s.free, s.chans ch = []
  fresh : ∀ ch, s.made ≤ ch → s.chans ch = []

variable {s s' : State α}

theorem owned_init : Owned (init : State α) where
  made := nofun
  one := nofun
  freeMade := nofun
  nodup := List.nodup_nil
  apart := nofun
  empty := nofun
  fresh _ _ := rfl

@[simp] theorem channel_spawn (s : State α) (ch : ChanID) (id : WriterID) :
    ((s.spawn ch).writers id).channel =
      if id = s.opened then some ch else (s.writers id).channel := by
  rcases eq_or_ne id s.opened with rfl | hne
  · simp [State.spawn, Writer.channel]
  · simp [State.spawn, hne]

theorem Owned.spawn (h : Owned s) (hmade : ch < s.made) (hfree : ch ∉ s.free)
    (hnone : ∀ id, (s.writers id).channel ≠ some ch) : Owned (s.spawn ch) where
  made id ch' hc := by
    rw [channel_spawn] at hc
    split at hc
    · cases hc
      exact hmade
    · exact h.made id ch' hc
  one id id' ch' hc hc' := by
    rw [channel_spawn] at hc hc'
    split at hc <;> split at hc'
    · next hid hid' => exact hid.trans hid'.symm
    · cases hc
      exact absurd hc' (hnone id')
    · cases hc'
      exact absurd hc (hnone id)
    · exact h.one id id' ch' hc hc'
  freeMade := h.freeMade
  nodup := h.nodup
  apart id ch' hc := by
    rw [channel_spawn] at hc
    split at hc
    · cases hc
      exact hfree
    · exact h.apart id ch' hc
  empty := h.empty
  fresh := h.fresh

theorem channel_setWriter (hs : (s.writers id).step size id (s.contents id) a = some (w, q))
    (id' : WriterID) : ((s.setWriter id w q).writers id').channel = (s.writers id').channel := by
  rcases eq_or_ne id' id with rfl | hne
  · simpa [State.setWriter] using (channel_step hs).1
  · simp [State.setWriter, hne]

theorem chans_setWriter (s : State α) (id : WriterID) (w : Writer α) (q : List (Sent α))
    (hne : (s.writers id).channel ≠ some ch) : (s.setWriter id w q).chans ch = s.chans ch := by
  cases hch : (s.writers id).channel with
  | none => simp [State.setWriter, hch]
  | some ch' =>
    have hdiff : ch ≠ ch' := by
      rintro rfl
      exact hne hch
    simp [State.setWriter, hch, hdiff]

theorem Owned.setWriter (h : Owned s)
    (hs : (s.writers id).step size id (s.contents id) a = some (w, q)) :
    Owned (s.setWriter id w q) where
  made id' ch hc := h.made id' ch ((channel_setWriter hs id').symm.trans hc)
  one id₁ id₂ ch hc₁ hc₂ := h.one id₁ id₂ ch ((channel_setWriter hs id₁).symm.trans hc₁)
    ((channel_setWriter hs id₂).symm.trans hc₂)
  freeMade := h.freeMade
  nodup := h.nodup
  apart id' ch hc := h.apart id' ch ((channel_setWriter hs id').symm.trans hc)
  empty ch hch := by
    rw [chans_setWriter s id w q fun hc => h.apart id ch hc hch]
    exact h.empty ch hch
  fresh ch hch := by
    rw [chans_setWriter s id w q fun hc => Nat.not_lt.mpr hch (h.made id ch hc)]
    exact h.fresh ch hch

theorem Owned.put (h : Owned s) (hstage : (s.writers id).stage = .putting ch)
    (hinbox : (s.writers id).inbox = none) (hempty : s.chans ch = []) : Owned { s with
      writers := Function.update s.writers id { s.writers id with stage := .returned }
      free := if s.free.length < maxCachedSubgroupInboxes then s.free ++ [ch] else s.free } := by
  have hown : (s.writers id).channel = some ch := by simp [Writer.channel, hstage]
  have hchannel : ∀ id' ch', ((Function.update s.writers id
      { s.writers id with stage := .returned }) id').channel = some ch' →
      id' ≠ id ∧ (s.writers id').channel = some ch' := by
    intro id' ch' hc
    rcases eq_or_ne id' id with rfl | hne
    · simp [Writer.channel, hinbox] at hc
    · exact ⟨hne, by simpa [hne] using hc⟩
  have hsub : ∀ ch' ∈ (if s.free.length < maxCachedSubgroupInboxes then s.free ++ [ch]
      else s.free), ch' ∈ s.free ∨ ch' = ch := by
    intro ch' hch'
    split at hch'
    · exact (List.mem_append.mp hch').imp_right List.mem_singleton.mp
    · exact .inl hch'
  refine ⟨fun id' ch' hc => h.made id' ch' (hchannel id' ch' hc).2,
    fun id₁ id₂ ch' hc₁ hc₂ => h.one id₁ id₂ ch' (hchannel id₁ ch' hc₁).2 (hchannel id₂ ch' hc₂).2,
    fun ch' hch' => ?_, ?_, fun id' ch' hc hch' => ?_, fun ch' hch' => ?_, h.fresh⟩
  · rcases hsub ch' hch' with hfree | rfl
    · exact h.freeMade ch' hfree
    · exact h.made id ch' hown
  · split
    · refine List.nodup_append.mpr ⟨h.nodup, List.nodup_singleton ch, fun ch' hch' c hc => ?_⟩
      obtain rfl := List.mem_singleton.mp hc
      rintro rfl
      exact h.apart id ch' hown hch'
    · exact h.nodup
  · obtain ⟨hne, hc'⟩ := hchannel id' ch' hc
    rcases hsub ch' hch' with hfree | rfl
    · exact h.apart id' ch' hc' hfree
    · exact hne (h.one id' id ch' hc' hown)
  · rcases hsub ch' hch' with hfree | rfl
    · exact h.empty ch' hfree
    · exact hempty

/-! ## Every run -/

/-- Each writer is sound with the contents of its channel. -/
structure Pooled (s : State α) : Prop where
  owned : Owned s
  sound : ∀ id, Sound id (s.writers id) (s.contents id)

theorem pooled_init : Pooled (init : State α) := ⟨owned_init, sound_unopened⟩

theorem Pooled.spawn (h : Pooled s) (howned : Owned (s.spawn ch)) (hempty : s.chans ch = []) :
    Pooled (s.spawn ch) := by
  refine ⟨howned, fun id => ?_⟩
  rcases eq_or_ne id s.opened with rfl | hne
  · have hcontents : (s.spawn ch).contents s.opened = [] := by
      simp [State.contents, State.spawn, Writer.channel, hempty]
    rw [hcontents]
    simpa [State.spawn] using sound_opened s.opened ch
  · simpa [State.spawn, State.contents, hne] using h.sound id

theorem Pooled.openWriter (h : Pooled s) (hs : step size s .openWriter = some s') : Pooled s' := by
  have ho := h.owned
  simp only [Inboxes.step] at hs
  split at hs <;> cases hs
  · next ch free hfree =>
    have hnodup := ho.nodup
    rw [hfree, List.nodup_cons] at hnodup
    have hmem : ∀ {c}, c ∈ free → c ∈ s.free := fun hc => hfree ▸ List.mem_cons_of_mem ch hc
    have hfirst : ch ∈ s.free := hfree ▸ List.mem_cons_self
    have hpopped : Owned { s with free := free } :=
      ⟨ho.made, ho.one, fun c hc => ho.freeMade c (hmem hc), hnodup.2,
        fun id c hc hin => ho.apart id c hc (hmem hin), fun c hc => ho.empty c (hmem hc), ho.fresh⟩
    have hspawn := hpopped.spawn (ho.freeMade ch hfirst) hnodup.1
      fun id hc => ho.apart id ch hc hfirst
    exact Pooled.spawn ⟨hpopped, h.sound⟩ hspawn (ho.empty ch hfirst)
  · next hfree =>
    have hnone : ∀ {c}, c ∉ s.free := by simp [hfree]
    have hgrown : Owned { s with made := s.made + 1 } :=
      ⟨fun id c hc => Nat.lt_succ_of_lt (ho.made id c hc), ho.one,
        fun c hc => absurd hc hnone, ho.nodup, ho.apart, ho.empty,
        fun c hc => ho.fresh c (Nat.le_of_succ_le hc)⟩
    have hspawn := hgrown.spawn (Nat.lt_succ_self s.made) hnone
      fun id hc => Nat.lt_irrefl _ (ho.made id s.made hc)
    exact Pooled.spawn ⟨hgrown, h.sound⟩ hspawn (ho.fresh s.made (Nat.le_refl _))

theorem contents_setWriter_of_ne (h : Owned s)
    (hs : (s.writers id).step size id (s.contents id) a = some (w, q)) {id' : WriterID}
    (hne : id' ≠ id) : (s.setWriter id w q).contents id' = s.contents id' := by
  unfold State.contents
  rw [channel_setWriter hs id']
  split
  · next ch hch => exact chans_setWriter s id w q fun hc => hne (h.one id' id ch hch hc)
  · rfl

theorem contents_setWriter_self (hs : (s.writers id).step size id (s.contents id) a = some (w, q)) :
    (s.setWriter id w q).contents id = q := by
  unfold State.contents
  rw [channel_setWriter hs id]
  cases hch : (s.writers id).channel with
  | some ch => simp [State.setWriter, hch]
  | none =>
    have hnil : s.contents id = [] := by simp [State.contents, hch]
    exact ((channel_step hs).2 hch hnil).symm

theorem Pooled.act (h : Pooled s) (hs : step size s (.act id a) = some s') : Pooled s' := by
  simp only [Inboxes.step, Option.map_eq_some_iff] at hs
  obtain ⟨⟨w, q⟩, hw, rfl⟩ := hs
  refine ⟨h.owned.setWriter hw, fun id' => ?_⟩
  rcases eq_or_ne id' id with rfl | hne
  · rw [contents_setWriter_self hw]
    simpa [State.setWriter] using (h.sound id').step hw
  · rw [contents_setWriter_of_ne h.owned hw hne]
    simpa [State.setWriter, hne] using h.sound id'

theorem Pooled.put (h : Pooled s) (hs : step size s (.put id) = some s') : Pooled s' := by
  simp only [Inboxes.step] at hs
  split at hs <;> cases hs
  next ch hstage hnil =>
  have hsound := h.sound id
  have hinbox : (s.writers id).inbox = none := hsound.inbox.mpr (by rw [hstage]; rfl)
  have hempty : s.chans ch = [] := by
    simpa [State.contents, Writer.channel, hstage] using hnil
  refine ⟨h.owned.put hstage hinbox hempty, fun id' => ?_⟩
  rcases eq_or_ne id' id with rfl | hne
  · rw [hnil] at hsound
    simpa [State.contents, Writer.channel, hinbox] using hsound.stage .returned
      (by rw [hstage]; rfl) nofun fun _ => hsound.drained (by rw [hstage]; rfl)
  · simpa [State.contents, hne] using h.sound id'

theorem Pooled.step {a : Act α} (h : Pooled s) (hs : step size s a = some s') : Pooled s' := by
  cases a with
  | openWriter => exact h.openWriter hs
  | act id a => exact h.act hs
  | put id => exact h.put hs

/-- **Recycled inboxes never mix Subgroups.** In every run: what was published to a writer was
    taken by it, or discarded by its `put`, or is in its own channel; a channel in the free list
    is empty, is there once, and is no writer's; no channel is two writers'; and a writer that has
    left its loop, and not for lag, has taken everything that was published to it. -/
theorem inboxes_never_mix {acts : List (Act α)}
    (hrun : Lib.run (step size) (init : State α) acts = some s) :
    (∀ id, (s.writers id).published =
        (s.writers id).taken ++ (s.writers id).discarded ++ s.contents id ∧
        ∀ x ∈ (s.writers id).taken ++ (s.writers id).discarded ++ s.contents id,
          x.writer = id) ∧
      (∀ ch ∈ s.free, s.chans ch = []) ∧ s.free.Nodup ∧
      (∀ id ch, (s.writers id).channel = some ch → ch ∉ s.free) ∧
      (∀ id id' ch, (s.writers id).channel = some ch → (s.writers id').channel = some ch →
        id = id') ∧
      ∀ id, (s.writers id).stage.left = true → (s.writers id).lagExceeded = false →
        (s.writers id).taken = (s.writers id).published := by
  have h : Pooled s := Lib.run_inv (fun _ _ _ h hs => h.step hs) pooled_init hrun
  refine ⟨fun id => ⟨(h.sound id).accounts, fun x hx => ?_⟩, h.owned.empty, h.owned.nodup,
    h.owned.apart, h.owned.one, fun id hleft hlag => ?_⟩
  · rw [← (h.sound id).accounts] at hx
    exact (h.sound id).own x hx
  · obtain ⟨-, hdiscarded, hnil⟩ := (h.sound id).drained hleft hlag
    simp [(h.sound id).accounts, hdiscarded, hnil]

/-- A writer leaves its loop for lag with an Object queued, and its channel goes to the next one,
    which is closed while it has an Object to take. -/
def recycled : List (Act Nat) :=
  [.openWriter, .act 0 (.publish 10), .act 0 (.publish 11), .act 0 .poll, .act 0 .lag,
    .act 0 (.finish false), .act 0 .release, .act 0 (.publish 12), .act 0 .discard, .put 0,
    .openWriter, .act 0 (.publish 13), .act 1 .poll, .act 1 (.publish 20), .act 1 .close,
    .act 1 .closeDone, .act 1 .seeDone, .act 1 .look, .act 1 .next, .act 1 .poll,
    .act 1 .seeDone, .act 1 .look]

theorem inboxes_never_mix_recycled :
    ∃ s, Lib.run (step 2) (init : State Nat) recycled = some s ∧
      (s.writers 0).published = [⟨0, 10⟩, ⟨0, 11⟩] ∧ (s.writers 0).discarded = [⟨0, 11⟩] ∧
      (s.writers 1).channel = some 0 ∧ (s.writers 1).published = [⟨1, 20⟩] ∧
      (s.writers 1).taken = (s.writers 1).published := by
  have hrun : Lib.run (step 2) (init : State Nat) recycled = some _ := rfl
  obtain ⟨-, -, -, -, -, htaken⟩ := inboxes_never_mix hrun
  exact ⟨_, hrun, rfl, rfl, rfl, rfl, htaken 1 rfl rfl⟩

end Inboxes
end MoqGo.Relay
