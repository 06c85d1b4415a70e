import MoqGo.Lib.Runs
import MoqGo.Message.Control

/-!
# The answers to REQUEST_UPDATE (`pkg/moqt/session/broker.go`)

`RequestBroker.Update` writes a REQUEST_UPDATE and queues a **waiter** for its answer, both under
the lock, and then waits on the waiter's channel, which holds one result, or for its context to
end. A response read off the stream takes waiters out of the queue under the lock, a REQUEST_OK
the oldest and a REQUEST_ERROR all of them, and sends to their channels outside it; `closeUpdates`
does the same with all of them; and an `Update` that gives up takes its own waiter out. So a waiter
is removed by one of four, and its answer may be in its channel, or on its way there, when its
`Update` gives up.

An update is named by its place in the order they were written in. A call of `route` or
`closeUpdates` that has left the lock is a `Sender`. **Every update written is a token**
(`Broker.tokens`): in the queue, to be sent to, or sent to, and never twice. Nothing here blocks
because of it, and every result is accounted for.

`Serve` checks a REQUEST_OK before it routes it, so `mapUpdateResponse` passes it on as it is. What
an answer does to the namespace prefix is in `Relay.Registry.Peer`.
-/

namespace MoqGo.Session
namespace Updates

open Lib List Function
open Message.Control (RequestOK RequestError)

/-- A response read off the stream. -/
inductive Response
  | requestOK (m : RequestOK)
  | requestError (m : RequestError)
deriving DecidableEq, Repr

/-- `updateResult`. -/
inductive UpdateResult
  | ok (m : RequestOK)
  /-- A `RequestRejectedError`. -/
  | rejected (m : RequestError)
  /-- `ErrRequestStreamClosed`. -/
  | streamClosed
deriving DecidableEq, Repr

/-- `mapUpdateResponse`. -/
def mapUpdateResponse : Response → UpdateResult
  | .requestOK m => .ok m
  | .requestError m => .rejected m

/-- `route`, under the lock: the recipients, and the waiters that stay. -/
def Response.split : Response → List Nat → List Nat × List Nat
  | .requestError _, waiters => (waiters, [])
  | .requestOK _, waiters => (waiters.take 1, waiters.drop 1)

/-- Where an answer comes from: the response that was the `i`-th to find a waiter, or
    `closeUpdates`. -/
inductive Source
  | route (i : Nat)
  | closeUpdates
deriving DecidableEq, Repr

/-- A call of `route` or `closeUpdates` that has left the lock, with the recipients it has still
    to send to. -/
structure Sender where
  source : Source
  res : UpdateResult
  left : List Nat
deriving DecidableEq, Repr

/-- A response that found waiters. -/
structure Routed where
  response : Response
  pending : List Nat
deriving DecidableEq, Repr

/-- `RequestBroker`, with the calls on it. From `written` on, the fields are history: the number of
    updates written, what they returned (`none` if they gave up), the responses, those of them that
    found a waiter, the updates `closeUpdates` failed, and what was sent. -/
structure Broker where
  waiters : List Nat := []
  updatesClosed : Bool := false
  /-- The waiters' channels, each with room for one result. -/
  chan : Nat → Option UpdateResult := fun _ => none
  /-- The updates in their `select`. -/
  waiting : List Nat := []
  /-- The updates whose `select` found the context ended. -/
  leaving : List Nat := []
  senders : List Sender := []
  written : Nat := 0
  returns : List (Nat × Option UpdateResult) := []
  responses : List Response := []
  routed : List Routed := []
  failed : List Nat := []
  sent : List (Nat × Source) := []

inductive Act
  /-- `Update`, under the lock; `ok` is whether the write succeeds. -/
  | update (ok : Bool)
  /-- The `select` of an `Update` finds its context ended. -/
  | cancel (u : Nat)
  /-- An `Update` that was cancelled takes its waiter out and returns. -/
  | giveUp (u : Nat)
  /-- The `select` of an `Update` receives its result, and it returns. -/
  | receive (u : Nat)
  /-- `route`, under the lock. -/
  | route (m : Response)
  /-- `closeUpdates`, under the lock. -/
  | closeUpdates
  /-- The next send of a sender, or its end. -/
  | send (snd : Sender)
deriving DecidableEq, Repr

namespace Broker

/-- `route` takes the recipients of a response out of the queue. -/
def takeRecipients (s : Broker) (m : Response) : Broker :=
  { s with
    waiters := (m.split s.waiters).2
    senders := ⟨.route s.routed.length, mapUpdateResponse m, (m.split s.waiters).1⟩ :: s.senders
    responses := s.responses ++ [m]
    routed := s.routed ++ [⟨m, s.waiters⟩] }

/-- `closeUpdates` takes all waiters out of the queue. -/
def takeAll (s : Broker) : Broker :=
  { s with
    waiters := []
    updatesClosed := true
    senders := ⟨.closeUpdates, .streamClosed, s.waiters⟩ :: s.senders
    failed := s.failed ++ s.waiters }

/-- A sender sends to its next recipient. -/
def sendTo (s : Broker) (snd : Sender) (u : Nat) (rest : List Nat) : Broker :=
  { s with
    senders := { snd with left := rest } :: s.senders.erase snd
    chan := Function.update s.chan u (some snd.res)
    sent := (u, snd.source) :: s.sent }

def step (s : Broker) : Act → Option Broker
  | .update ok =>
    if s.updatesClosed || !ok then some s
    else some { s with
      waiters := s.waiters ++ [s.written]
      waiting := s.written :: s.waiting
      written := s.written + 1 }
  | .cancel u =>
    if u ∈ s.waiting then
      some { s with waiting := s.waiting.erase u, leaving := u :: s.leaving }
    else none
  | .giveUp u =>
    if u ∈ s.leaving then
      some { s with
        leaving := s.leaving.erase u
        waiters := s.waiters.erase u
        returns := (u, none) :: s.returns }
    else none
  | .receive u =>
    match s.chan u with
    | some r =>
      if u ∈ s.waiting then
        some { s with
          waiting := s.waiting.erase u
          chan := Function.update s.chan u none
          returns := (u, some r) :: s.returns }
      else none
    | none => none
  | .route m =>
    if s.waiters = [] then some { s with responses := s.responses ++ [m] }
    else some (s.takeRecipients m)
  | .closeUpdates => some s.takeAll
  | .send snd =>
    if snd ∈ s.senders then
      match snd.left with
      | [] => some { s with senders := s.senders.erase snd }
      | u :: rest =>
        -- a send to a channel that holds a result blocks
        if s.chan u = none then some (s.sendTo snd u rest) else none
    else none

def due (s : Broker) : List Nat := s.senders.flatMap (·.left)

def tokens (s : Broker) : List Nat := s.waiters ++ s.due ++ s.sent.map (·.1)

/-- The updates an answer is for. -/
def recipients (s : Broker) : Source → List Nat
  | .route i => match s.routed[i]? with
    | some rt => (rt.response.split rt.pending).1
    | none => []
  | .closeUpdates => s.failed

/-- What an answer says. -/
def result (s : Broker) : Source → UpdateResult
  | .route i => match s.routed[i]? with
    | some rt => mapUpdateResponse rt.response
    | none => .streamClosed
  | .closeUpdates => .streamClosed

end Broker

/-! ## What holds of every run -/

def Due (senders : List Sender) (src : Source) (u : Nat) : Prop :=
  ∃ snd ∈ senders, snd.source = src ∧ u ∈ snd.left

structure Inv (s : Broker) : Prop where
  /-- An update written waits, gives up or has returned, and only one of them. -/
  calls : (s.waiting ++ s.leaving ++ s.returns.map (·.1)).Perm (List.range s.written)
  closed : s.updatesClosed = true → s.waiters = []
  once : s.tokens.Nodup
  bound : ∀ u ∈ s.tokens, u < s.written
  chan : ∀ u r, s.chan u = some r → ∃ src, (u, src) ∈ s.sent ∧ s.result src = r
  returned : ∀ u r, (u, some r) ∈ s.returns → ∃ src, (u, src) ∈ s.sent ∧ s.result src = r
  /-- **No update is left behind.** -/
  found : ∀ u ∈ s.waiting, u ∈ s.waiters ∨ u ∈ s.due ∨ s.chan u ≠ none
  answers : ∀ src u, u ∈ s.recipients src ↔ (u, src) ∈ s.sent ∨ Due s.senders src u
  results : ∀ snd ∈ s.senders, ∀ u ∈ snd.left, snd.res = s.result snd.source
  asked : ∀ rt ∈ s.routed, rt.pending ≠ []

theorem inv_init : Inv {} where
  calls := List.Perm.nil
  closed := nofun
  once := List.nodup_nil
  bound _ := nofun
  chan _ _ := nofun
  returned _ _ := nofun
  found _ := nofun
  answers src u := by
    cases src <;> simp [Broker.recipients, Due]
  results _ := nofun
  asked _ := nofun

variable {s s' : Broker} {u : Nat} {m : Response} {snd : Sender} {rest : List Nat}
  {senders : List Sender}

/-! ### The parts of a step -/

theorem perm_handOn {a l l' b : List Nat} (h : l.Perm (u :: l')) :
    (a ++ l' ++ u :: b).Perm (a ++ l ++ b) := by
  have hfront : (u :: (a ++ l')).Perm (a ++ l) :=
    perm_middle.symm.trans (h.symm.append_left a)
  exact perm_middle.trans (hfront.append_right b)

theorem split_append (m : Response) (ws : List Nat) : (m.split ws).1 ++ (m.split ws).2 = ws := by
  cases m with
  | requestOK m => exact take_append_drop 1 ws
  | requestError m => exact append_nil ws

theorem mem_due : u ∈ s.due ↔ ∃ src, Due s.senders src u := by
  simp only [Broker.due, mem_flatMap, Due]
  constructor
  · rintro ⟨snd, hsnd, hu⟩
    exact ⟨snd.source, snd, hsnd, rfl, hu⟩
  · rintro ⟨src, snd, hsnd, -, hu⟩
    exact ⟨snd, hsnd, hu⟩

theorem due_perm (h : snd ∈ s.senders) :
    s.due.Perm (snd.left ++ (s.senders.erase snd).flatMap (·.left)) :=
  (perm_cons_erase h).flatMap_right _

theorem due_send (h : snd ∈ senders) (hleft : snd.left = u :: rest) (src : Source) (v : Nat) :
    Due senders src v ↔
      (v = u ∧ src = snd.source) ∨ Due ({ snd with left := rest } :: senders.erase snd) src v := by
  constructor
  · rintro ⟨snd', hsnd', rfl, hv⟩
    rcases eq_or_ne snd' snd with rfl | hne
    · rw [hleft] at hv
      rcases mem_cons.mp hv with rfl | hv
      · exact .inl ⟨rfl, rfl⟩
      · exact .inr ⟨_, mem_cons_self, rfl, hv⟩
    · exact .inr ⟨snd', mem_cons_of_mem _ ((mem_erase_of_ne hne).mpr hsnd'), rfl, hv⟩
  · rintro (⟨rfl, rfl⟩ | ⟨snd', hsnd', rfl, hv⟩)
    · exact ⟨snd, h, rfl, hleft ▸ mem_cons_self⟩
    · rcases mem_cons.mp hsnd' with rfl | hsnd'
      · exact ⟨snd, h, rfl, hleft ▸ mem_cons_of_mem _ hv⟩
      · exact ⟨snd', mem_of_mem_erase hsnd', rfl, hv⟩

theorem due_erase (h : snd.left = []) (src : Source) (v : Nat) :
    Due (senders.erase snd) src v ↔ Due senders src v := by
  constructor
  · rintro ⟨snd', hsnd', hsrc, hv⟩
    exact ⟨snd', mem_of_mem_erase hsnd', hsrc, hv⟩
  · rintro ⟨snd', hsnd', hsrc, hv⟩
    refine ⟨snd', (mem_erase_of_ne ?_).mpr hsnd', hsrc, hv⟩
    rintro rfl
    rw [h] at hv
    cases hv

theorem due_cons {src : Source} {v : Nat} :
    Due (snd :: senders) src v ↔ (snd.source = src ∧ v ∈ snd.left) ∨ Due senders src v := by
  simp [Due]

theorem recipients_takeRecipients (m : Response) (src : Source) :
    (src = .route s.routed.length ∧
        (s.takeRecipients m).recipients src = (m.split s.waiters).1 ∧ s.recipients src = []) ∨
      (src ≠ .route s.routed.length ∧
        (s.takeRecipients m).recipients src = s.recipients src) := by
  cases src with
  | closeUpdates => exact .inr ⟨nofun, rfl⟩
  | route i =>
    rcases Nat.lt_trichotomy i s.routed.length with hlt | rfl | hlt
    · refine .inr ⟨fun heq => ?_, ?_⟩
      · cases heq
        exact Nat.lt_irrefl _ hlt
      · simp only [Broker.recipients, Broker.takeRecipients, List.getElem?_append_left hlt]
    · refine .inl ⟨rfl, ?_, ?_⟩
      · simp only [Broker.recipients, Broker.takeRecipients, List.getElem?_concat_length]
      · simp only [Broker.recipients, List.getElem?_eq_none (Nat.le_refl _)]
    · have hnone : (s.routed ++ [⟨m, s.waiters⟩])[i]? = none := by
        apply List.getElem?_eq_none
        simp only [length_append, length_singleton]
        omega
      refine .inr ⟨fun heq => ?_, ?_⟩
      · cases heq
        exact Nat.lt_irrefl _ hlt
      · simp only [Broker.recipients, Broker.takeRecipients, hnone,
          List.getElem?_eq_none (Nat.le_of_lt hlt)]

theorem result_append {src : Source} {rt : Routed} (hrouted : s'.routed = s.routed ++ [rt])
    (h : u ∈ s.recipients src) : s'.result src = s.result src := by
  cases src with
  | closeUpdates => rfl
  | route i =>
    simp only [Broker.recipients] at h
    split at h
    · next rt' hrt =>
      have hlt : i < s.routed.length := (List.getElem?_eq_some_iff.mp hrt).1
      rw [Broker.result, Broker.result, hrouted, List.getElem?_append_left hlt]
    · cases h

namespace Inv

section

variable (h : Inv s)
include h

theorem nodup_calls : (s.waiting ++ s.leaving ++ s.returns.map (·.1)).Nodup :=
  h.calls.nodup_iff.mpr nodup_range

theorem chan_of_due (hu : u ∈ s.due) : s.chan u = none := by
  by_contra hne
  obtain ⟨r, hr⟩ := Option.ne_none_iff_exists'.mp hne
  obtain ⟨src, hsent, -⟩ := h.chan u r hr
  have honce := h.once
  rw [Broker.tokens, append_assoc] at honce
  have hdisjoint := disjoint_of_nodup_append (nodup_append.mp honce).2.1
  exact hdisjoint hu (mem_map_of_mem (f := Prod.fst) hsent)

/-! ### One step -/

theorem update (hopen : s.updatesClosed = false) :
    Inv { s with
      waiters := s.waiters ++ [s.written]
      waiting := s.written :: s.waiting
      written := s.written + 1 } := by
  have htokens : (s.waiters ++ [s.written] ++ s.due ++ s.sent.map (·.1)).Perm
      (s.written :: s.tokens) := by
    simp only [Broker.tokens, append_assoc, singleton_append]
    exact perm_middle
  have hfresh : s.written ∉ s.tokens := fun hmem => Nat.lt_irrefl _ (h.bound _ hmem)
  refine ⟨?_, ?_, ?_, ?_, h.chan, h.returned, ?_, h.answers, h.results, h.asked⟩
  · rw [range_succ]
    exact (h.calls.cons _).trans (perm_append_singleton _ _).symm
  · intro hclosed
    rw [hopen] at hclosed
    cases hclosed
  · exact htokens.nodup_iff.mpr (nodup_cons.mpr ⟨hfresh, h.once⟩)
  · intro v hv
    rcases mem_cons.mp (htokens.mem_iff.mp hv) with rfl | hv
    · exact Nat.lt_succ_self _
    · exact Nat.lt_succ_of_lt (h.bound v hv)
  · intro v hv
    rcases mem_cons.mp hv with rfl | hv
    · exact .inl (mem_append_right _ (mem_singleton_self _))
    · exact (h.found v hv).imp_left (mem_append_left _)

theorem cancel (hu : u ∈ s.waiting) :
    Inv { s with waiting := s.waiting.erase u, leaving := u :: s.leaving } := by
  have hmove : (s.waiting.erase u ++ u :: s.leaving).Perm (s.waiting ++ s.leaving) :=
    perm_middle.trans ((perm_cons_erase hu).symm.append_right _)
  refine ⟨(hmove.append_right _).trans h.calls, h.closed, h.once, h.bound, h.chan, h.returned,
    ?_, h.answers, h.results, h.asked⟩
  exact fun v hv => h.found v (mem_of_mem_erase hv)

theorem giveUp (hu : u ∈ s.leaving) :
    Inv { s with
      leaving := s.leaving.erase u
      waiters := s.waiters.erase u
      returns := (u, none) :: s.returns } := by
  have hmove : (s.waiting ++ s.leaving.erase u ++ u :: s.returns.map (·.1)).Perm
      (s.waiting ++ s.leaving ++ s.returns.map (·.1)) := perm_handOn (perm_cons_erase hu)
  have hsub : (s.waiters.erase u ++ s.due ++ s.sent.map (·.1)).Sublist s.tokens :=
    ((erase_sublist).append_right _).append_right _
  have hother : ∀ v ∈ s.waiting, v ≠ u := by
    rintro v hv rfl
    have hdisjoint := disjoint_of_nodup_append (nodup_append.mp h.nodup_calls).1
    exact hdisjoint hv hu
  refine ⟨hmove.trans h.calls, ?_, hsub.nodup h.once, fun v hv => h.bound v (hsub.subset hv),
    h.chan, ?_, ?_, h.answers, h.results, h.asked⟩
  · intro hclosed
    simp only [h.closed hclosed]
    rfl
  · intro v r hr
    rcases mem_cons.mp hr with heq | hr
    · cases heq
    · exact h.returned v r hr
  · intro v hv
    exact (h.found v hv).imp_left (mem_erase_of_ne (hother v hv)).mpr

theorem receive (hu : u ∈ s.waiting) {r : UpdateResult} (hr : s.chan u = some r) :
    Inv { s with
      waiting := s.waiting.erase u
      chan := Function.update s.chan u none
      returns := (u, some r) :: s.returns } := by
  have hmove : (s.waiting.erase u ++ s.leaving ++ u :: s.returns.map (·.1)).Perm
      (s.waiting ++ s.leaving ++ s.returns.map (·.1)) :=
    perm_handOn (a := []) ((perm_cons_erase hu).append_right s.leaving)
  refine ⟨hmove.trans h.calls, h.closed, h.once, h.bound, ?_, ?_, ?_, h.answers, h.results, h.asked⟩
  · intro v r' (hv : Function.update s.chan u none v = some r')
    rcases eq_or_ne v u with rfl | hne
    · rw [update_self] at hv
      cases hv
    · rw [update_of_ne hne] at hv
      exact h.chan v r' hv
  · intro v r' hv
    rcases mem_cons.mp hv with heq | hv
    · cases heq
      exact h.chan u r hr
    · exact h.returned v r' hv
  · intro v hv
    have hnodup : s.waiting.Nodup :=
      (nodup_append.mp (nodup_append.mp h.nodup_calls).1).1
    obtain ⟨hne, hv⟩ := hnodup.mem_erase_iff.mp hv
    have hchan : Function.update s.chan u none v = s.chan v := Function.update_of_ne hne _ _
    exact (h.found v hv).imp_right (·.imp_right hchan.trans_ne)

theorem takeRecipients (hne : s.waiters ≠ []) : Inv (s.takeRecipients m) := by
  have hopen : s.updatesClosed = false :=
    Bool.eq_false_iff.mpr fun hclosed => hne (h.closed hclosed)
  have htokens : (s.takeRecipients m).tokens.Perm s.tokens := by
    have hsplit : ((m.split s.waiters).2 ++ (m.split s.waiters).1).Perm s.waiters := by
      refine perm_append_comm.trans ?_
      rw [split_append]
    have heq : (s.takeRecipients m).tokens =
        (m.split s.waiters).2 ++ (m.split s.waiters).1 ++ s.due ++ s.sent.map (·.1) := by
      rw [append_assoc (m.split s.waiters).2]
      rfl
    rw [heq]
    exact (hsplit.append_right _).append_right _
  have hstable : ∀ {src : Source} {v : Nat}, (v, src) ∈ s.sent ∨ Due s.senders src v →
      (s.takeRecipients m).result src = s.result src :=
    fun hv => result_append rfl ((h.answers _ _).mpr hv)
  refine ⟨h.calls, ?_, htokens.nodup_iff.mpr h.once, fun v hv => h.bound v (htokens.mem_iff.mp hv),
    ?_, ?_, ?_, ?_, ?_, ?_⟩
  · intro hclosed
    exact absurd (hopen.symm.trans hclosed) nofun
  · intro v r hr
    obtain ⟨src, hsent, hres⟩ := h.chan v r hr
    exact ⟨src, hsent, (hstable (.inl hsent)).trans hres⟩
  · intro v r hr
    obtain ⟨src, hsent, hres⟩ := h.returned v r hr
    exact ⟨src, hsent, (hstable (.inl hsent)).trans hres⟩
  · intro v hv
    rcases h.found v hv with hwait | hdue | hchan
    · rw [← split_append m s.waiters] at hwait
      rcases mem_append.mp hwait with hwait | hwait
      · exact .inr (.inl (mem_append_left _ hwait))
      · exact .inl hwait
    · exact .inr (.inl (mem_append_right _ hdue))
    · exact .inr (.inr hchan)
  · intro src v
    have hdue : Due (s.takeRecipients m).senders src v ↔ _ := due_cons
    have hold := h.answers src v
    rw [hdue]
    rcases recipients_takeRecipients (s := s) m src with ⟨rfl, hsrc, hnone⟩ | ⟨hne, hsrc⟩
    · -- no answer was from this response before
      rw [hnone] at hold
      obtain ⟨hsent, hdue⟩ := not_or.mp (hold.not.mp not_mem_nil)
      rw [hsrc]
      exact ⟨fun hv => .inr (.inl ⟨rfl, hv⟩),
        fun hv => (hv.resolve_left hsent).elim And.right fun hv => absurd hv hdue⟩
    · rw [hsrc, hold]
      exact ⟨Or.imp_right .inr,
        Or.imp_right fun hv => hv.resolve_left fun hv => hne hv.1.symm⟩
  · intro snd hsnd v hv
    rcases mem_cons.mp hsnd with rfl | hsnd
    · simp only [Broker.result, Broker.takeRecipients, List.getElem?_concat_length]
    · rw [hstable (.inr ⟨snd, hsnd, rfl, hv⟩)]
      exact h.results snd hsnd v hv
  · intro rt hrt
    rcases mem_append.mp hrt with hrt | hrt
    · exact h.asked rt hrt
    · rw [mem_singleton.mp hrt]
      exact hne

theorem takeAll : Inv s.takeAll := by
  refine ⟨h.calls, fun _ => rfl, h.once, h.bound, h.chan, h.returned, ?_, ?_, ?_, h.asked⟩
  · intro v hv
    rcases h.found v hv with hwait | hdue | hchan
    · exact .inr (.inl (mem_append_left _ hwait))
    · exact .inr (.inl (mem_append_right _ hdue))
    · exact .inr (.inr hchan)
  · intro src v
    have hdue : Due s.takeAll.senders src v ↔ _ := due_cons
    have hold := h.answers src v
    rw [hdue]
    cases src with
    | route i =>
      refine hold.trans (or_congr_right ?_)
      exact ⟨.inr, fun hv => hv.resolve_left fun hv => Source.noConfusion hv.1⟩
    | closeUpdates =>
      have hfailed : v ∈ s.takeAll.recipients .closeUpdates ↔
          v ∈ s.recipients .closeUpdates ∨ v ∈ s.waiters := mem_append
      tauto
  · intro snd hsnd v hv
    rcases mem_cons.mp hsnd with rfl | hsnd
    · rfl
    · exact h.results snd hsnd v hv

theorem sendTo (hsnd : snd ∈ s.senders) (hleft : snd.left = u :: rest) :
    Inv (s.sendTo snd u rest) := by
  have hdue : s.due.Perm (u :: (s.sendTo snd u rest).due) := by
    refine (due_perm hsnd).trans ?_
    rw [hleft]
    exact List.Perm.refl _
  have htokens : (s.sendTo snd u rest).tokens.Perm s.tokens := perm_handOn hdue
  have hmem : u ∈ snd.left := hleft ▸ mem_cons_self
  refine ⟨h.calls, h.closed, htokens.nodup_iff.mpr h.once,
    fun v hv => h.bound v (htokens.mem_iff.mp hv), ?_, ?_, ?_, ?_, ?_, h.asked⟩
  · intro v r (hr : Function.update s.chan u (some snd.res) v = some r)
    rcases eq_or_ne v u with rfl | hne
    · rw [update_self] at hr
      cases hr
      exact ⟨snd.source, mem_cons_self, (h.results snd hsnd v hmem).symm⟩
    · rw [update_of_ne hne] at hr
      obtain ⟨src, hsent, hres⟩ := h.chan v r hr
      exact ⟨src, mem_cons_of_mem _ hsent, hres⟩
  · intro v r hr
    obtain ⟨src, hsent, hres⟩ := h.returned v r hr
    exact ⟨src, mem_cons_of_mem _ hsent, hres⟩
  · intro v hv
    rcases eq_or_ne v u with rfl | hne
    · refine .inr (.inr ?_)
      simp [Broker.sendTo]
    · have hchan : Function.update s.chan u (some snd.res) v = s.chan v :=
        update_of_ne hne _ _
      rcases h.found v hv with hwait | hv | hv
      · exact .inl hwait
      · exact .inr (.inl ((mem_cons.mp (hdue.mem_iff.mp hv)).resolve_left hne))
      · exact .inr (.inr (hchan.trans_ne hv))
  · intro src v
    refine (h.answers src v).trans ?_
    rw [due_send hsnd hleft]
    have hsent : (v, src) ∈ (s.sendTo snd u rest).sent ↔
        (v = u ∧ src = snd.source) ∨ (v, src) ∈ s.sent := by
      simp [Broker.sendTo]
    rw [hsent, or_left_comm, or_assoc]
    rfl
  · intro snd' hsnd' v hv
    rcases mem_cons.mp hsnd' with rfl | hsnd'
    · exact h.results snd hsnd u hmem
    · exact h.results snd' (mem_of_mem_erase hsnd') v hv

theorem finish (hsnd : snd ∈ s.senders) (hleft : snd.left = []) :
    Inv { s with senders := s.senders.erase snd } := by
  have hdue : s.due.Perm ((s.senders.erase snd).flatMap (·.left)) := by
    refine (due_perm hsnd).trans ?_
    rw [hleft]
    exact List.Perm.refl _
  have htokens : (s.waiters ++ (s.senders.erase snd).flatMap (·.left) ++ s.sent.map (·.1)).Perm
      s.tokens := (hdue.symm.append_left _).append_right _
  refine ⟨h.calls, h.closed, htokens.nodup_iff.mpr h.once,
    fun v hv => h.bound v (htokens.mem_iff.mp hv), h.chan, h.returned, ?_, ?_, ?_, h.asked⟩
  · intro v hv
    exact (h.found v hv).imp_right (·.imp_left hdue.mem_iff.mp)
  · intro src v
    exact (h.answers src v).trans (or_congr_right (due_erase hleft src v).symm)
  · intro snd' hsnd' v hv
    exact h.results snd' (mem_of_mem_erase hsnd') v hv

theorem step {a : Act} (hstep : s.step a = some s') : Inv s' := by
  cases a with
  | update ok =>
    simp only [Broker.step] at hstep
    split_ifs at hstep with hrefused
    · exact Option.some.inj hstep ▸ h
    · simp only [Bool.or_eq_true, not_or, Bool.not_eq_true] at hrefused
      exact Option.some.inj hstep ▸ h.update hrefused.1
  | cancel u =>
    simp only [Broker.step] at hstep
    split_ifs at hstep with hu
    exact Option.some.inj hstep ▸ h.cancel hu
  | giveUp u =>
    simp only [Broker.step] at hstep
    split_ifs at hstep with hu
    exact Option.some.inj hstep ▸ h.giveUp hu
  | receive u =>
    simp only [Broker.step] at hstep
    split at hstep
    · next r hr =>
      split_ifs at hstep with hu
      exact Option.some.inj hstep ▸ h.receive hu hr
    · cases hstep
  | route m =>
    simp only [Broker.step] at hstep
    split_ifs at hstep with hnone
    · exact Option.some.inj hstep ▸ ⟨h.calls, h.closed, h.once, h.bound, h.chan, h.returned,
        h.found, h.answers, h.results, h.asked⟩
    · exact Option.some.inj hstep ▸ h.takeRecipients hnone
  | closeUpdates => exact Option.some.inj hstep ▸ h.takeAll
  | send snd =>
    simp only [Broker.step] at hstep
    split_ifs at hstep with hsnd
    split at hstep
    · next hleft => exact Option.some.inj hstep ▸ h.finish hsnd hleft
    · next u rest hleft =>
      split_ifs at hstep
      exact Option.some.inj hstep ▸ h.sendTo hsnd hleft

end

end Inv

theorem inv_run {acts : List Act} (hrun : run Broker.step {} acts = some s) : Inv s :=
  run_inv (fun _ _ _ h hstep => h.step hstep) inv_init hrun

/-! ## Every update returns -/

/-- The step is of a sender, or of an update that returns. -/
def Act.finishes : Act → Bool
  | .send _ | .receive _ | .giveUp _ => true
  | _ => false

def Broker.work (s : Broker) : Nat := s.due.length + s.waiting.length + s.leaving.length

/-- **An update that has not returned and is not pending keeps the broker busy.** -/
theorem Inv.progress (h : Inv s)
    (hout : ¬∀ v < s.written, v ∈ s.waiters ∨ v ∈ s.returns.map (·.1)) :
    ∃ a s', a.finishes = true ∧ s.step a = some s' ∧ s'.work < s.work ∧
      s'.written = s.written := by
  by_cases hdue : s.due = []
  · by_cases hleaving : s.leaving = []
    · -- only updates in their select are left, and their results have come
      obtain ⟨v, hv⟩ := not_forall.mp hout
      obtain ⟨hlt, hnone⟩ := Classical.not_imp.mp hv
      obtain ⟨hpending, hreturned⟩ := not_or.mp hnone
      have hcall := h.calls.mem_iff.mpr (mem_range.mpr hlt)
      rw [hleaving, append_nil] at hcall
      have hwaiting := (mem_append.mp hcall).resolve_right hreturned
      have hchan : s.chan v ≠ none := by
        rcases h.found v hwaiting with hmem | hmem | hchan
        · exact absurd hmem hpending
        · rw [hdue] at hmem
          cases hmem
        · exact hchan
      obtain ⟨r, hr⟩ := Option.ne_none_iff_exists'.mp hchan
      have hlength := length_erase_add_one hwaiting
      have hstep : s.step (.receive v) = some { s with
          waiting := s.waiting.erase v
          chan := Function.update s.chan v none
          returns := (v, some r) :: s.returns } := by
        simp only [Broker.step, hr, if_pos hwaiting]
      refine ⟨.receive v, _, rfl, hstep, ?_, rfl⟩
      simp only [Broker.work, Broker.due]
      omega
    · obtain ⟨v, hv⟩ := exists_mem_of_ne_nil _ hleaving
      refine ⟨.giveUp v, _, rfl, if_pos hv, ?_, rfl⟩
      have hlength := length_erase_add_one hv
      simp only [Broker.work, Broker.due]
      omega
  · obtain ⟨v, hv⟩ := exists_mem_of_ne_nil _ hdue
    obtain ⟨snd, hsnd, hv⟩ := mem_flatMap.mp hv
    obtain ⟨u, rest, hleft⟩ := exists_cons_of_ne_nil (ne_nil_of_mem hv)
    have hu : s.chan u = none :=
      h.chan_of_due (mem_flatMap.mpr ⟨snd, hsnd, hleft ▸ mem_cons_self⟩)
    refine ⟨.send snd, s.sendTo snd u rest, rfl, ?_, ?_, rfl⟩
    · simp only [Broker.step, hleft, if_pos hsnd, if_pos hu]
    · have hlength := (due_perm hsnd).length_eq
      rw [hleft] at hlength
      have hless : (s.sendTo snd u rest).due.length < s.due.length := by
        rw [hlength]
        exact Nat.lt_succ_self _
      exact Nat.add_lt_add_right (Nat.add_lt_add_right hless _) _

/-- **Every update written returns, unless it is pending**: the senders and the updates by
    themselves come to a state where this is so. -/
theorem Inv.returns (h : Inv s) :
    ∃ acts s', (∀ a ∈ acts, a.finishes = true) ∧ run Broker.step s acts = some s' ∧
      ∀ v < s.written, v ∈ s'.waiters ∨ v ∈ s'.returns.map (·.1) := by
  induction hwork : s.work using Nat.strong_induction_on generalizing s with
  | _ n ih =>
    by_cases hdone : ∀ v < s.written, v ∈ s.waiters ∨ v ∈ s.returns.map (·.1)
    · exact ⟨[], s, nofun, rfl, hdone⟩
    · obtain ⟨a, t, ha, hstep, hless, hwritten⟩ := h.progress hdone
      obtain ⟨acts, s', hacts, hrun, hall⟩ := ih t.work (hwork ▸ hless) (h.step hstep) rfl
      refine ⟨a :: acts, s', ?_, run_cons.mpr ⟨t, hstep, hrun⟩, hwritten ▸ hall⟩
      intro b hb
      rcases mem_cons.mp hb with rfl | hb
      · exact ha
      · exact hacts b hb

/-! ## In order -/

/-- No update gives up, and the response is a REQUEST_OK. -/
def Act.orderly : Act → Bool
  | .cancel _ => false
  | .route (.requestError _) => false
  | _ => true

/-- What holds while no update gives up and no REQUEST_ERROR comes: the `i`-th response to find a
    waiter found update `i`. -/
structure InOrder (s : Broker) : Prop where
  leaving : s.leaving = []
  returned : ∀ (u : Nat) (r : Option UpdateResult), (u, r) ∈ s.returns → r ≠ none
  routed : ∀ (i : Nat) (rt : Routed), s.routed[i]? = some rt →
    (∃ m, rt.response = .requestOK m) ∧ rt.pending.head? = some i
  le : s.routed.length ≤ s.written
  waiters : s.updatesClosed = false → s.waiters = (List.range s.written).drop s.routed.length

theorem InOrder.init : InOrder {} where
  leaving := rfl
  returned _ _ := nofun
  routed _ _ := nofun
  le := Nat.le_refl _
  waiters _ := rfl

/-- **The next REQUEST_OK finds the next update** at the head of the queue. -/
theorem InOrder.takeRecipients (h : InOrder s) (hnone : s.waiters ≠ [])
    (hopen : s.updatesClosed = false) {m : RequestOK} :
    InOrder (s.takeRecipients (.requestOK m)) := by
  have hlt : s.routed.length < (List.range s.written).length := by
    by_contra hge
    exact hnone ((h.waiters hopen).trans (drop_eq_nil_of_le (Nat.not_lt.mp hge)))
  have hwaiters := h.waiters hopen
  rw [drop_eq_getElem_cons hlt, getElem_range] at hwaiters
  refine ⟨h.leaving, h.returned, ?_, ?_, fun _ => ?_⟩
  · intro i rt hrt
    rcases Nat.lt_trichotomy i s.routed.length with hi | rfl | hi
    · exact h.routed i rt ((List.getElem?_append_left hi).symm.trans hrt)
    · have hlast : (s.routed ++ [⟨.requestOK m, s.waiters⟩])[s.routed.length]? = some rt := hrt
      rw [List.getElem?_concat_length] at hlast
      cases hlast
      exact ⟨⟨m, rfl⟩, congrArg List.head? hwaiters⟩
    · have hbound := (List.getElem?_eq_some_iff.mp hrt).1
      simp only [Broker.takeRecipients, length_append, length_singleton] at hbound
      omega
  · simp only [Broker.takeRecipients, length_append, length_singleton]
    rw [length_range] at hlt
    exact hlt
  · simp only [Broker.takeRecipients, Response.split, length_append, length_singleton,
      hwaiters, drop_succ_cons, drop_zero]

theorem InOrder.step (h : InOrder s) (hinv : Inv s) {a : Act} (ha : a.orderly = true)
    (hstep : s.step a = some s') : InOrder s' := by
  cases a with
  | cancel u => cases ha
  | update ok =>
    simp only [Broker.step] at hstep
    split_ifs at hstep with hrefused
    · exact Option.some.inj hstep ▸ h
    · cases hstep
      refine ⟨h.leaving, h.returned, h.routed, Nat.le_succ_of_le h.le, fun hopen => ?_⟩
      simp only [h.waiters hopen, range_succ]
      rw [drop_append_of_le_length]
      rw [length_range]
      exact h.le
  | giveUp u =>
    simp only [Broker.step, h.leaving, not_mem_nil, if_false] at hstep
    cases hstep
  | receive u =>
    simp only [Broker.step] at hstep
    split at hstep
    · next r hr =>
      split_ifs at hstep with hu
      cases hstep
      refine ⟨h.leaving, ?_, h.routed, h.le, h.waiters⟩
      intro v r' hv
      rcases mem_cons.mp hv with heq | hv
      · cases heq
        exact Option.some_ne_none _
      · exact h.returned v r' hv
    · cases hstep
  | route m =>
    simp only [Broker.step] at hstep
    split_ifs at hstep with hnone
    · exact Option.some.inj hstep ▸ ⟨h.leaving, h.returned, h.routed, h.le, h.waiters⟩
    · cases hstep
      cases m with
      | requestError m => cases ha
      | requestOK m =>
        have hopen : s.updatesClosed = false :=
          Bool.eq_false_iff.mpr fun hclosed => hnone (hinv.closed hclosed)
        exact h.takeRecipients hnone hopen
  | closeUpdates =>
    cases hstep
    exact ⟨h.leaving, h.returned, h.routed, h.le, nofun⟩
  | send snd =>
    simp only [Broker.step] at hstep
    split_ifs at hstep with hsnd
    split at hstep
    · exact Option.some.inj hstep ▸ ⟨h.leaving, h.returned, h.routed, h.le, h.waiters⟩
    · split_ifs at hstep
      exact Option.some.inj hstep ▸ ⟨h.leaving, h.returned, h.routed, h.le, h.waiters⟩

theorem inOrder_run {acts : List Act} (hacts : ∀ a ∈ acts, a.orderly = true)
    (hrun : run Broker.step {} acts = some s) : InOrder s := by
  have hboth : InOrder s ∧ Inv s := by
    refine run_inv_along (P := fun s => InOrder s ∧ Inv s) ?_ ⟨InOrder.init, inv_init⟩
      (along_of_mem hacts _) hrun
    rintro s a s' ⟨horder, hinv⟩ ha hstep
    exact ⟨horder.step hinv ha hstep, hinv.step hstep⟩
  exact hboth.1

/-! ## What each response answers -/

/-- The response that was the `i`-th to find a waiter is sent to the update's channel, or about to
    be. -/
def Answers (s : Broker) (i u : Nat) : Prop :=
  (u, .route i) ∈ s.sent ∨ Due s.senders (.route i) u

variable {i : Nat} {rt : Routed}

theorem Inv.answers_iff (h : Inv s) (hrt : s.routed[i]? = some rt) :
    Answers s i u ↔ u ∈ (rt.response.split rt.pending).1 := by
  rw [Answers, ← h.answers]
  simp only [Broker.recipients, hrt]

/-- A REQUEST_OK answers the oldest update, a REQUEST_ERROR every one that is pending. -/
theorem Inv.answers_response (h : Inv s) (hrt : s.routed[i]? = some rt) :
    (∀ m, rt.response = .requestError m → ∀ u, Answers s i u ↔ u ∈ rt.pending) ∧
      ∀ m, rt.response = .requestOK m →
        ∃ v, rt.pending.head? = some v ∧ ∀ u, Answers s i u ↔ u = v := by
  constructor
  · intro m hm u
    rw [h.answers_iff hrt, hm]
    rfl
  · intro m hm
    obtain ⟨v, rest, hpending⟩ := exists_cons_of_ne_nil
      (h.asked rt (mem_of_getElem? hrt))
    refine ⟨v, congrArg List.head? hpending, fun u => ?_⟩
    rw [h.answers_iff hrt, hm, hpending]
    exact mem_singleton

/-- **An update is sent to once**, so what it returned is the answer it was sent. -/
theorem Inv.returned_result (h : Inv s) (hrt : s.routed[i]? = some rt) (hu : Answers s i u)
    {r : UpdateResult} (hr : (u, some r) ∈ s.returns) : r = mapUpdateResponse rt.response := by
  obtain ⟨src, hsent, hres⟩ := h.returned u r hr
  have honce := h.once
  rw [Broker.tokens, append_assoc] at honce
  obtain ⟨-, hsends, -⟩ := nodup_append.mp honce
  obtain ⟨-, hnodup, hdisjoint⟩ := nodup_append'.mp hsends
  have hmem : u ∈ s.sent.map (·.1) := mem_map_of_mem (f := Prod.fst) hsent
  rcases hu with hu | hu
  · have heq := inj_on_of_nodup_map hnodup hu hsent rfl
    obtain rfl := (Prod.mk.inj heq).2
    rw [← hres]
    simp only [Broker.result, hrt]
  · exact absurd hmem (hdisjoint (mem_due.mpr ⟨_, hu⟩))

theorem waiters_after_close {before after : List Act}
    (hrun : run Broker.step {} (before ++ .closeUpdates :: after) = some s) :
    s.waiters = [] := by
  obtain ⟨t, -, hrest⟩ := run_append.mp hrun
  obtain ⟨t', hclose, hafter⟩ := run_cons.mp hrest
  cases hclose
  refine (inv_run hrun).closed ?_
  refine run_inv (P := fun s => s.updatesClosed = true) ?_ rfl hafter
  intro s a s' hclosed hstep
  cases a with
  | update ok =>
    simp only [Broker.step, hclosed, Bool.true_or, if_true] at hstep
    exact Option.some.inj hstep ▸ hclosed
  | closeUpdates => exact Option.some.inj hstep ▸ rfl
  | cancel u | giveUp u =>
    simp only [Broker.step] at hstep
    split_ifs at hstep
    exact Option.some.inj hstep ▸ hclosed
  | receive u =>
    simp only [Broker.step] at hstep
    split at hstep
    · split_ifs at hstep
      exact Option.some.inj hstep ▸ hclosed
    · cases hstep
  | route m =>
    simp only [Broker.step] at hstep
    split_ifs at hstep
    all_goals exact Option.some.inj hstep ▸ hclosed
  | send snd =>
    simp only [Broker.step] at hstep
    split_ifs at hstep
    split at hstep
    · exact Option.some.inj hstep ▸ hclosed
    · split_ifs at hstep
      exact Option.some.inj hstep ▸ hclosed

theorem Inv.send_isSome (h : Inv s) (hsnd : snd ∈ s.senders) :
    (s.step (.send snd)).isSome = true := by
  simp only [Broker.step, if_pos hsnd]
  split
  · rfl
  · next u rest hleft =>
    have hdue : u ∈ s.due := mem_flatMap.mpr ⟨snd, hsnd, hleft ▸ mem_cons_self⟩
    rw [if_pos (h.chan_of_due hdue)]
    rfl

/-- **Every REQUEST_UPDATE gets its own answer**, in every run of any number of updates, responses
    and closings. An update written returns at most once, and it does return unless it is pending.
    No send blocks. A REQUEST_ERROR answers all updates pending at that moment, and a REQUEST_OK
    that finds any, exactly the oldest. If no update gives up and no REQUEST_ERROR comes, the `k`-th
    REQUEST_OK to find an update pending answers the `k`-th update, which returns it. After
    `closeUpdates` no update is pending. -/
theorem updates_answered {acts : List Act} (hrun : run Broker.step {} acts = some s) :
    ((s.returns.map (·.1)).Nodup ∧ (∀ u ∈ s.returns.map (·.1), u < s.written) ∧
        ∃ rest s', (∀ a ∈ rest, a.finishes = true) ∧ run Broker.step s rest = some s' ∧
          ∀ u < s.written, u ∈ s'.waiters ∨ u ∈ s'.returns.map (·.1)) ∧
      (∀ snd ∈ s.senders, (s.step (.send snd)).isSome = true) ∧
      (∀ (i : Nat) (rt : Routed), s.routed[i]? = some rt →
        (∀ m, rt.response = .requestError m → ∀ u, Answers s i u ↔ u ∈ rt.pending) ∧
        (∀ m, rt.response = .requestOK m →
          ∃ v, rt.pending.head? = some v ∧ ∀ u, Answers s i u ↔ u = v) ∧
        ∀ u r, Answers s i u → (u, some r) ∈ s.returns → r = mapUpdateResponse rt.response) ∧
      ((∀ a ∈ acts, a.orderly = true) → ∀ (k : Nat) (rt : Routed), s.routed[k]? = some rt →
        ∃ m, rt.response = .requestOK m ∧ (∀ u, Answers s k u ↔ u = k) ∧
          ∀ r, (k, r) ∈ s.returns → r = some (.ok m)) ∧
      ∀ before after, acts = before ++ .closeUpdates :: after → s.waiters = [] := by
  have h := inv_run hrun
  refine ⟨⟨?_, ?_, h.returns⟩, fun snd => h.send_isSome, ?_, ?_, ?_⟩
  · exact (nodup_append.mp h.nodup_calls).2.1
  · intro u hu
    exact mem_range.mp (h.calls.mem_iff.mp (mem_append_right _ hu))
  · intro i rt hrt
    obtain ⟨herror, hok⟩ := h.answers_response hrt
    exact ⟨herror, hok, fun u r hu hr => h.returned_result hrt hu hr⟩
  · intro hacts k rt hrt
    have horder := inOrder_run hacts hrun
    obtain ⟨⟨m, hm⟩, hhead⟩ := horder.routed k rt hrt
    obtain ⟨v, hv, hanswers⟩ := (h.answers_response hrt).2 m hm
    obtain rfl : k = v := Option.some.inj (hhead.symm.trans hv)
    refine ⟨m, hm, hanswers, fun r hr => ?_⟩
    obtain ⟨r', rfl⟩ := Option.ne_none_iff_exists'.mp (horder.returned k r hr)
    rw [h.returned_result hrt ((hanswers k).mpr rfl) hr, hm]
    rfl
  · rintro before after rfl
    exact waiters_after_close hrun

/-- A REQUEST_OK that carries a LARGEST_OBJECT. -/
def largestObject (object : UInt64) : RequestOK :=
  ⟨[{ type := 0x09, object := object, kind := .location }], []⟩

/-- Three updates: the first is answered, the second gives up while the REQUEST_ERROR that answers
    it and the third is on its way; a fourth finds the broker closed. -/
def crossing : List Act :=
  [.update true, .update true, .route (.requestOK (largestObject 1)), .update true,
    .route (.requestError ⟨1, 0, [], none⟩), .cancel 1,
    .send ⟨.route 1, .rejected ⟨1, 0, [], none⟩, [1, 2]⟩, .giveUp 1,
    .send ⟨.route 1, .rejected ⟨1, 0, [], none⟩, [2]⟩, .receive 2, .closeUpdates, .update true,
    .send ⟨.route 0, .ok (largestObject 1), [0]⟩, .receive 0]

theorem updates_answered_crossing :
    ∃ s, run Broker.step {} crossing = some s ∧
      s.returns = [(0, some (.ok (largestObject 1))),
        (2, some (.rejected ⟨1, 0, [], none⟩)), (1, none)] ∧
      (s.returns.map (·.1)).Nodup ∧ s.waiters = [] := by
  have hrun : run Broker.step {} crossing = some _ := rfl
  obtain ⟨⟨hnodup, -⟩, -, -, -, hclosed⟩ := updates_answered hrun
  exact ⟨_, hrun, rfl, hnodup, hclosed (crossing.take 10) (crossing.drop 11) rfl⟩

/-- A REQUEST_OK more than there are updates pending, though none gives up and no REQUEST_ERROR
    comes. -/
def unsolicited : List Act :=
  [.update true, .route (.requestOK (largestObject 1)),
    .send ⟨.route 0, .ok (largestObject 1), [0]⟩, .receive 0,
    .route (.requestOK (largestObject 2)), .update true, .route (.requestOK (largestObject 3)),
    .send ⟨.route 1, .ok (largestObject 3), [1]⟩, .receive 1]

/-- **An unsolicited REQUEST_OK answers no update**: the second REQUEST_OK is returned by none, and
    the second update returns the third. -/
theorem unsolicited_answers_none :
    (∀ a ∈ unsolicited, a.orderly = true) ∧
      ∃ s, run Broker.step {} unsolicited = some s ∧
        s.responses = [.requestOK (largestObject 1), .requestOK (largestObject 2),
          .requestOK (largestObject 3)] ∧
        s.returns = [(1, some (.ok (largestObject 3))), (0, some (.ok (largestObject 1)))] := by
  have hrun : run Broker.step {} unsolicited = some _ := rfl
  exact ⟨by decide, _, hrun, rfl, rfl⟩

end Updates
end MoqGo.Session
