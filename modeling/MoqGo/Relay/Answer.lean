import MoqGo.Lib.Runs
import MoqGo.Relay.Subscription

/-!
# How a subscription is answered (`pkg/relay/internal/registry/subscription.go`)

A subscription's request stream gets SUBSCRIBE_OK and, at the end, PUBLISH_DONE with the number
of its data streams; or, if the end came first, REQUEST_ERROR alone. Two locks are involved: `mu`
guards the state and the counters, `writeMu` the request stream. A termination leaves its answer
pending; whichever call finds the counters at zero takes it and spawns a goroutine, which writes
it once it gets `writeMu`; and `WriteSubscribeOK` holds `writeMu` while it checks the state and
writes, so a termination may come in between.

`Answering` is one subscription with every caller. The numbers `opening`, `live` and `sending`
count the true Begins without their End and the opened streams not yet closed, as their callers
know them: a call of `EndStream`, `StreamClosed` or `EndDatagram` is a step only where one is
due. Writes on the request stream succeed.

The Stream Count is a natural number here. The source's `uint64` cannot wrap: a connection has
fewer streams than that.
-/

namespace MoqGo.Relay

open List

/-- What is written on the request stream. -/
inductive Sent
  | subscribeOK
  | publishDone (code : PublishDoneCode) (streamCount : Nat) (reason : String)
  /-- REQUEST_ERROR, with DOES_NOT_EXIST. -/
  | requestError (reason : String)
  | fin
deriving DecidableEq, Repr

/-- The message ends the request. -/
def Sent.terminating : Sent → Bool
  | .publishDone _ _ _ | .requestError _ => true
  | _ => false

/-- Who holds `writeMu`. The answer's goroutine and `EndRefused` do nothing else while they hold
    it, so each is one step. -/
inductive Holder
  | nobody
  /-- `WriteSubscribeOK`, before or after it found the subscription not terminated. -/
  | subscribeOK (checked : Bool)
deriving DecidableEq, Repr

/-- One subscription and its callers. -/
structure Answering where
  sub : DownstreamSub
  holder : Holder := .nobody
  /-- The goroutines of `sendPublishDone` that wait for `writeMu`. -/
  spawned : List DownstreamSub.ReadyDone := []
  /-- The calls of `EndRefused` that wait for `writeMu`. -/
  refusing : Nat := 0
  written : List Sent := []
  opening : Nat := 0
  live : Nat := 0
  sending : Nat := 0
  /-- The streams opened over the subscription's life. -/
  opened : Nat := 0
deriving Repr

namespace Answering

inductive Act
  | beginStream
  | endStream (opened : Bool)
  | streamClosed
  | beginDatagram
  | endDatagram
  | terminateWithPublishDone (code : PublishDoneCode) (reason : String)
  | terminate
  | cancel
  | endRefused
  /-- `EndRefused` got `writeMu`. -/
  | closeRefused
  /-- `WriteSubscribeOK` got `writeMu`. -/
  | lockSubscribeOK
  | checkSubscribeOK
  | writeSubscribeOK
  /-- The goroutine of the first answer spawned got `writeMu`. -/
  | answer

/-- `takeReadyDoneLocked`, then `sendPublishDone`. -/
def settle (r : Answering) : Answering :=
  match r.sub.takeReadyDone with
  | (sub, none) => { r with sub := sub }
  | (sub, some done) => { r with sub := sub, spawned := r.spawned ++ [done] }

/-- What the goroutine of `sendPublishDone` writes. -/
def message (r : Answering) (done : DownstreamSub.ReadyDone) : Sent :=
  if r.sub.okSent then .publishDone done.1.code done.2 done.1.reason
  else .requestError done.1.reason

/-- One step. -/
def step (r : Answering) : Act → Option Answering
  | .beginStream =>
    match r.sub.beginStream with
    | (sub, true) => some { r with sub := sub, opening := r.opening + 1 }
    | (sub, false) => some { r with sub := sub }
  | .endStream opened =>
    if r.opening = 0 then none
    else
      let r := { r with sub := r.sub.endStream opened, opening := r.opening - 1 }
      some (if opened then { r with live := r.live + 1, opened := r.opened + 1 } else r).settle
  | .streamClosed =>
    if r.live = 0 then none
    else some { r with sub := r.sub.streamClosed, live := r.live - 1 }.settle
  | .beginDatagram =>
    match r.sub.beginDatagram with
    | (sub, true) => some { r with sub := sub, sending := r.sending + 1 }
    | (sub, false) => some { r with sub := sub }
  | .endDatagram =>
    if r.sending = 0 then none
    else some { r with sub := r.sub.endDatagram, sending := r.sending - 1 }.settle
  | .terminateWithPublishDone code reason =>
    match r.sub.terminateWithPublishDone code reason with
    | none => some r
    | some sub => some { r with sub := sub }.settle
  | .terminate => some { r with sub := r.sub.terminate.1 }
  | .cancel => some { r with sub := r.sub.cancel }
  | .endRefused =>
    match r.sub.endRefused with
    | (sub, true) => some { r with sub := sub, refusing := r.refusing + 1 }
    | (sub, false) => some { r with sub := sub }
  | .closeRefused =>
    if r.refusing = 0 ∨ r.holder ≠ .nobody then none
    else some { r with refusing := r.refusing - 1, written := r.written ++ [.fin] }
  | .lockSubscribeOK =>
    if r.holder = .nobody then some { r with holder := .subscribeOK false } else none
  | .checkSubscribeOK =>
    if r.holder = .subscribeOK false then
      some { r with
        holder := if r.sub.state = .terminated then .nobody else .subscribeOK true }
    else none
  | .writeSubscribeOK =>
    if r.holder = .subscribeOK true then
      some { r with
        sub := { r.sub with okSent := true }
        written := r.written ++ [.subscribeOK]
        holder := .nobody }
    else none
  | .answer =>
    match r.spawned with
    | done :: rest =>
      if r.holder = .nobody then
        some { r with spawned := rest, written := r.written ++ [r.message done, .fin] }
      else none
    | [] => none

/-- The start: a subscription a SUBSCRIBE opened, or one the relay's own PUBLISH did. -/
def init (openedByPublish : Bool) : Answering := { sub := { okSent := openedByPublish } }

/-! ## The answer is one token -/

def issued (r : Answering) : Nat := r.spawned.length + r.written.countP Sent.terminating

def answers (r : Answering) : Nat := r.sub.pendingDone.toList.length + r.issued

/-- What holds of a subscription and its callers. -/
structure Sound (r : Answering) : Prop where
  opening : r.sub.streamsOpening = r.opening
  live : r.sub.streamsOpen = r.live
  sending : r.sub.datagramsSending = r.sending
  opened : r.sub.streamsOpened = r.opened
  /-- **There is one answer**, and only a terminated subscription has it. -/
  one : r.answers ≤ 1
  ended : r.answers ≠ 0 → r.sub.state = .terminated
  /-- It is taken when nothing is under way. -/
  quiet : r.issued ≠ 0 → r.opening = 0 ∧ r.live = 0 ∧ r.sending = 0
  spawned : ∀ done ∈ r.spawned, done.2 = r.opened
  count : ∀ code n reason, .publishDone code n reason ∈ r.written → n = r.opened
  ok : .subscribeOK ∈ r.written → r.sub.okSent = true
  error : ∀ reason, .requestError reason ∈ r.written →
    r.holder ≠ .subscribeOK true ∧ .subscribeOK ∉ r.written

namespace Sound

variable {r : Answering}

theorem issued_ne_zero {m : Sent} (hm : m ∈ r.written) (hterm : m.terminating = true) :
    r.issued ≠ 0 := by
  have hpos : 0 < r.written.countP Sent.terminating := countP_pos_iff.mpr ⟨m, hm, hterm⟩
  unfold issued
  omega

section

variable (hi : Sound r)
include hi

theorem settle : Sound r.settle := by
  unfold Answering.settle DownstreamSub.takeReadyDone
  cases hp : r.sub.pendingDone with
  | none => exact hi
  | some done =>
    split_ifs with hbusy
    · exact hi
    · have hanswers : r.answers = 1 + r.issued := by simp [answers, hp]
      have hone := hi.one
      have hterm := hi.ended (by omega)
      have hnone : r.spawned = [] ∧ r.written.countP Sent.terminating = 0 := by
        have hissued : r.issued = 0 := by omega
        unfold issued at hissued
        exact ⟨eq_nil_of_length_eq_zero (by omega), by omega⟩
      have hquiet : r.opening = 0 ∧ r.live = 0 ∧ r.sending = 0 := by
        have hopening := hi.opening
        have hlive := hi.live
        have hsending := hi.sending
        omega
      refine { hi with one := ?_, ended := fun _ => hterm, quiet := fun _ => hquiet, spawned := ?_ }
      · simp [answers, issued, hnone]
      · simp [hnone.1, hi.opened]

theorem unanswered (h : r.sub.state ≠ .terminated) : r.answers = 0 ∧ r.issued = 0 := by
  have hnone : r.answers = 0 := not_not.mp fun hne => h (hi.ended hne)
  exact ⟨hnone, by unfold answers at hnone; omega⟩

theorem issued_eq_zero (h : r.opening ≠ 0 ∨ r.live ≠ 0 ∨ r.sending ≠ 0) : r.issued = 0 := by
  by_contra hissued
  obtain ⟨hopening, hlive, hsending⟩ := hi.quiet hissued
  omega

/-- What a step leaves of the invariant that only the counters and the state can break. -/
theorem counters {r' : Answering} (hopening : r'.sub.streamsOpening = r'.opening)
    (hlive : r'.sub.streamsOpen = r'.live) (hsending : r'.sub.datagramsSending = r'.sending)
    (hopened : r'.sub.streamsOpened = r'.opened) (hpending : r'.sub.pendingDone = r.sub.pendingDone)
    (hstate : r.answers ≠ 0 → r'.sub.state = .terminated) (hok : r'.sub.okSent = r.sub.okSent)
    (hholder : r'.holder = r.holder) (hspawned : r'.spawned = r.spawned)
    (hwritten : r'.written = r.written) (hissued : r.issued = 0) : Sound r' := by
  have hissued' : r'.issued = 0 := by rw [issued, hspawned, hwritten, ← issued, hissued]
  have hanswers : r'.answers = r.answers := by rw [answers, answers, hpending, hissued, hissued']
  have hempty : r.spawned = [] := eq_nil_of_length_eq_zero (by unfold issued at hissued; omega)
  refine ⟨hopening, hlive, hsending, hopened, hanswers ▸ hi.one, hanswers ▸ hstate,
    fun h => absurd hissued' h, ?_, ?_, ?_, ?_⟩
  · rw [hspawned, hempty]
    exact nofun
  · intro code n reason hm
    rw [hwritten] at hm
    exact absurd hissued (issued_ne_zero hm rfl)
  · rw [hwritten, hok]
    exact hi.ok
  · rw [hwritten, hholder]
    exact hi.error

theorem terminated {sub : DownstreamSub} {refusing : Nat}
    (hsub : sub = { r.sub with state := .terminated, pendingDone := sub.pendingDone })
    (hpending : sub.pendingDone = r.sub.pendingDone ∨ sub.pendingDone = none) :
    Sound { r with sub := sub, refusing := refusing } := by
  have hone := hi.one
  have hle : answers { r with sub := sub, refusing := refusing } ≤ r.answers := by
    rcases hpending with hp | hp <;> simp [answers, issued, hp]
  rw [hsub]
  exact { hi with one := hle.trans hone, ended := fun _ => rfl }

theorem held {holder : Holder} (h : holder = .subscribeOK true → r.sub.state ≠ .terminated) :
    Sound { r with holder := holder } := by
  refine { hi with error := fun reason hin => ?_ }
  refine ⟨?_, (hi.error reason hin).2⟩
  intro hchecked
  -- a REQUEST_ERROR is out, so the subscription is terminated
  exact issued_ne_zero hin rfl (hi.unanswered (h hchecked)).2

theorem write {m : Sent} (hm : m.terminating = false) {refusing : Nat}
    {holder : Holder} {okSent : Bool} (hholder : holder ≠ .subscribeOK true)
    (hok : r.sub.okSent = true → okSent = true)
    (hsub : m = .subscribeOK → okSent = true ∧ r.holder = .subscribeOK true) :
    Sound { r with
      sub := { r.sub with okSent := okSent }
      refusing := refusing
      written := r.written ++ [m]
      holder := holder } := by
  have hcount : (r.written ++ [m]).countP Sent.terminating = r.written.countP Sent.terminating := by
    simp [hm]
  have hmem : ∀ x : Sent, x.terminating = true → x ∈ r.written ++ [m] → x ∈ r.written := by
    intro x hx hin
    rcases mem_append.mp hin with hin | hin
    · exact hin
    · rw [mem_singleton.mp hin, hm] at hx
      cases hx
  refine ⟨hi.opening, hi.live, hi.sending, hi.opened, ?_, ?_, ?_, hi.spawned, ?_, ?_, ?_⟩
  · simpa only [answers, issued, hcount] using hi.one
  · simpa only [answers, issued, hcount] using hi.ended
  · simpa only [issued, hcount] using hi.quiet
  · intro code n reason hin
    exact hi.count code n reason (hmem _ rfl hin)
  · intro hin
    rcases mem_append.mp hin with hin | hin
    · exact hok (hi.ok hin)
    · exact (hsub (mem_singleton.mp hin).symm).1
  · intro reason hin
    obtain ⟨hnot, hnone⟩ := hi.error reason (hmem _ rfl hin)
    refine ⟨hholder, ?_⟩
    intro hin
    rcases mem_append.mp hin with hin | hin
    · exact hnone hin
    · exact hnot (hsub (mem_singleton.mp hin).symm).2

theorem answer {done : DownstreamSub.ReadyDone} {rest : List DownstreamSub.ReadyDone}
    (hspawned : r.spawned = done :: rest) (hholder : r.holder = .nobody) :
    Sound { r with spawned := rest, written := r.written ++ [r.message done, .fin] } := by
  have hterm : (r.message done).terminating = true := by
    unfold message
    split <;> rfl
  have hissued : issued { r with
      spawned := rest, written := r.written ++ [r.message done, .fin] } = r.issued := by
    have hfin : Sent.terminating .fin = false := rfl
    simp [issued, hspawned, hterm, hfin]
    omega
  refine ⟨hi.opening, hi.live, hi.sending, hi.opened, ?_, ?_, ?_, ?_, ?_, ?_, ?_⟩
  · simpa only [answers, hissued] using hi.one
  · simpa only [answers, hissued] using hi.ended
  · simpa only [hissued] using hi.quiet
  · intro d hd
    exact hi.spawned d (hspawned ▸ mem_cons_of_mem done hd)
  · intro code n reason hin
    simp only [mem_append, mem_cons, not_mem_nil, or_false, reduceCtorEq] at hin
    rcases hin with hin | hin
    · exact hi.count code n reason hin
    · unfold message at hin
      split at hin
      · cases hin
        exact hi.spawned done (hspawned ▸ mem_cons_self)
      · cases hin
  · intro hin
    simp only [mem_append, mem_cons, not_mem_nil, or_false, reduceCtorEq] at hin
    rcases hin with hin | hin
    · exact hi.ok hin
    · rw [← hin] at hterm
      cases hterm
  · intro reason hin
    refine ⟨by simp [hholder], ?_⟩
    intro hok
    simp only [mem_append, mem_cons, not_mem_nil, or_false, reduceCtorEq] at hin hok
    have hok : .subscribeOK ∈ r.written := by
      rcases hok with hok | hok
      · exact hok
      · rw [← hok] at hterm
        cases hterm
    rcases hin with hin | hin
    · exact (hi.error reason hin).2 hok
    · -- with SUBSCRIBE_OK out, the answer is PUBLISH_DONE
      rw [message, hi.ok hok] at hin
      cases hin

theorem step {r' : Answering} {a : Act} (h : r.step a = some r') : Sound r' := by
  cases a with
  | beginStream =>
    by_cases hterm : r.sub.state = .terminated
    · simp only [Answering.step, DownstreamSub.beginStream, hterm, if_true] at h
      cases h
      exact hi
    · simp only [Answering.step, DownstreamSub.beginStream, hterm, if_false] at h
      cases h
      obtain ⟨hnone, hzero⟩ := hi.unanswered hterm
      exact hi.counters (by simp [hi.opening]) hi.live hi.sending hi.opened rfl
        (fun hne => absurd hnone hne) rfl rfl rfl rfl hzero
  | beginDatagram =>
    by_cases hterm : r.sub.state = .terminated
    · simp only [Answering.step, DownstreamSub.beginDatagram, hterm, if_true] at h
      cases h
      exact hi
    · simp only [Answering.step, DownstreamSub.beginDatagram, hterm, if_false] at h
      cases h
      obtain ⟨hnone, hzero⟩ := hi.unanswered hterm
      exact hi.counters hi.opening hi.live (by simp [hi.sending]) hi.opened rfl
        (fun hne => absurd hnone hne) rfl rfl rfl rfl hzero
  | endStream opened =>
    obtain ⟨hdue, rfl⟩ := Lib.unless_iff.mp h
    have hpred : r.sub.streamsOpening - 1 = ((r.opening - 1 : Nat) : Int) := by
      have hopening := hi.opening
      omega
    have hzero := hi.issued_eq_zero (.inl hdue)
    apply Sound.settle
    cases opened with
    | true =>
      have hlive : r.sub.streamsOpen + 1 = ((r.live + 1 : Nat) : Int) := by simp [hi.live]
      have hopened : r.sub.streamsOpened + 1 = r.opened + 1 := by rw [hi.opened]
      exact hi.counters hpred hlive hi.sending hopened rfl hi.ended rfl rfl rfl rfl hzero
    | false =>
      exact hi.counters hpred hi.live hi.sending hi.opened rfl hi.ended rfl rfl rfl rfl hzero
  | streamClosed =>
    obtain ⟨hdue, rfl⟩ := Lib.unless_iff.mp h
    have hpred : r.sub.streamsOpen - 1 = ((r.live - 1 : Nat) : Int) := by
      have hlive := hi.live
      omega
    apply Sound.settle
    exact hi.counters hi.opening hpred hi.sending hi.opened rfl hi.ended rfl rfl rfl rfl
      (hi.issued_eq_zero (.inr (.inl hdue)))
  | endDatagram =>
    obtain ⟨hdue, rfl⟩ := Lib.unless_iff.mp h
    have hpred : r.sub.datagramsSending - 1 = ((r.sending - 1 : Nat) : Int) := by
      have hsending := hi.sending
      omega
    apply Sound.settle
    exact hi.counters hi.opening hi.live hpred hi.opened rfl hi.ended rfl rfl rfl rfl
      (hi.issued_eq_zero (.inr (.inr hdue)))
  | terminateWithPublishDone code reason =>
    by_cases hterm : r.sub.state = .terminated
    · simp only [Answering.step, DownstreamSub.terminateWithPublishDone, hterm, if_true] at h
      cases h
      exact hi
    · simp only [Answering.step, DownstreamSub.terminateWithPublishDone, hterm, if_false] at h
      cases h
      refine settle { hi with one := ?_, ended := fun _ => rfl }
      have hissued := (hi.unanswered hterm).2
      simp only [answers, issued] at hissued ⊢
      simp [hissued]
  | terminate =>
    cases h
    unfold DownstreamSub.terminate
    split
    · exact hi
    · exact @terminated r hi _ r.refusing rfl (.inl rfl)
  | cancel =>
    cases h
    exact @terminated r hi _ r.refusing rfl (.inl rfl)
  | endRefused =>
    simp only [Answering.step] at h
    split at h
    · next sub heq =>
      cases h
      obtain rfl := congrArg Prod.fst heq
      exact hi.terminated rfl (.inr rfl)
    · next sub heq =>
      cases h
      obtain rfl := congrArg Prod.fst heq
      exact @terminated r hi _ r.refusing rfl (.inr rfl)
  | closeRefused =>
    obtain ⟨hfree, rfl⟩ := Lib.unless_iff.mp h
    have hholder : r.holder = .nobody := not_not.mp fun hne => hfree (.inr hne)
    exact @write r hi .fin rfl _ r.holder r.sub.okSent (by simp [hholder]) id nofun
  | lockSubscribeOK =>
    obtain ⟨-, rfl⟩ := Lib.guard_iff.mp h
    exact @held r hi (.subscribeOK false) nofun
  | checkSubscribeOK =>
    obtain ⟨-, rfl⟩ := Lib.guard_iff.mp h
    apply hi.held
    intro hchecked hterm
    rw [if_pos hterm] at hchecked
    cases hchecked
  | writeSubscribeOK =>
    obtain ⟨hholder, rfl⟩ := Lib.guard_iff.mp h
    exact @write r hi .subscribeOK rfl r.refusing .nobody true nofun (fun _ => rfl)
      (fun _ => ⟨rfl, hholder⟩)
  | answer =>
    simp only [Answering.step] at h
    split at h
    · next done rest hspawned =>
      obtain ⟨hholder, rfl⟩ := Lib.guard_iff.mp h
      exact hi.answer hspawned hholder
    · cases h

end

end Sound

/-! ## Whole runs -/

theorem Sound.init (openedByPublish : Bool) : Sound (init openedByPublish) := by
  refine ⟨rfl, rfl, rfl, rfl, Nat.zero_le _, fun h => absurd rfl h, fun h => absurd rfl h, ?_, ?_,
    ?_, ?_⟩
  all_goals exact nofun

/-- An answer was issued: a goroutine has it, or it is written. -/
def Issued (r : Answering) : Prop := r.spawned ≠ [] ∨ ∃ m ∈ r.written, m.terminating = true

theorem Issued.ne_zero {r : Answering} (h : r.Issued) : r.issued ≠ 0 := by
  rcases h with h | ⟨m, hm, hterm⟩
  · have hpos : 0 < r.spawned.length := length_pos_of_ne_nil h
    unfold issued
    omega
  · exact Sound.issued_ne_zero hm hterm

/-- **One answer, with the right count.** In every interleaving: at most one message that ends
    the request is written; in every state from the one on in which it is issued, no stream is
    open or opening, no datagram is in flight, and none can begin; the Stream Count of a
    PUBLISH_DONE is the number of streams ever opened; and SUBSCRIBE_OK and REQUEST_ERROR are
    not both written. -/
theorem answered_once {openedByPublish : Bool} {acts : List Act} {r : Answering}
    (hrun : Lib.run step (init openedByPublish) acts = some r) :
    (r.written.filter Sent.terminating).length ≤ 1 ∧
      (r.Issued → r.opening = 0 ∧ r.live = 0 ∧ r.sending = 0 ∧
        r.sub.beginStream = (r.sub, false) ∧ r.sub.beginDatagram = (r.sub, false)) ∧
      (∀ code n reason, .publishDone code n reason ∈ r.written → n = r.opened) ∧
      ¬ (.subscribeOK ∈ r.written ∧ ∃ reason, .requestError reason ∈ r.written) := by
  have hi : Sound r := Lib.run_inv (fun _ _ _ hi h => Sound.step hi h) (.init openedByPublish) hrun
  refine ⟨?_, ?_, hi.count, ?_⟩
  · have hone := hi.one
    rw [← countP_eq_length_filter]
    unfold answers issued at hone
    omega
  · intro hissued
    have hne := hissued.ne_zero
    obtain ⟨hopening, hlive, hsending⟩ := hi.quiet hne
    have hterm : r.sub.state = .terminated := hi.ended (by unfold answers; omega)
    refine ⟨hopening, hlive, hsending, ?_, ?_⟩
    · simp [DownstreamSub.beginStream, hterm]
    · simp [DownstreamSub.beginDatagram, hterm]
  · rintro ⟨hok, reason, herror⟩
    exact (hi.error reason herror).2 hok

/-- A stream is opened and another not; the track ends while SUBSCRIBE_OK is being written; the
    stream and a datagram end. -/
def endedWhileOpen : List Act :=
  [.beginStream, .endStream true, .beginStream, .beginDatagram, .lockSubscribeOK,
    .checkSubscribeOK, .terminateWithPublishDone 2 "relay: upstream gone", .endStream false,
    .streamClosed, .beginStream, .endDatagram, .writeSubscribeOK, .cancel, .answer]

theorem answered_once_after_streams :
    ∃ r, Lib.run step (init false) endedWhileOpen = some r ∧
      r.written = [.subscribeOK, .publishDone 2 1 "relay: upstream gone", .fin] ∧
      (r.written.filter Sent.terminating).length ≤ 1 ∧ r.opening = 0 ∧ 1 = r.opened := by
  refine Lib.computes_and (by decide +kernel) fun r hr hwritten => ?_
  obtain ⟨hone, hquiet, hcount, -⟩ := answered_once hr
  have hdone : .publishDone 2 1 "relay: upstream gone" ∈ r.written := by simp [hwritten]
  exact ⟨hone, (hquiet (.inr ⟨_, hdone, rfl⟩)).1, hcount _ _ _ hdone⟩

end Answering
end MoqGo.Relay
