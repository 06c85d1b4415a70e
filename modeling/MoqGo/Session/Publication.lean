import MoqGo.Lib.Counts
import MoqGo.Lib.Runs

/-!
# Publications and their PUBLISH_DONE (`pkg/moqt/session/publish.go`)

A publication opens subgroups and sends datagrams until `Done` ends it with a PUBLISH_DONE, whose
Stream Count is to be the number of subgroup streams. Any number of calls run at once. An open is
**admitted** under the lock, writes its header outside it and registers the subgroup under the lock
again; a `WaitGroup` counts it from its admission until it returns. `Done` ends the admissions,
waits for the counter, and only then takes the set of open subgroups and their number.

The state holds every call that is under way, named by the step it takes next. What is sent is
kept in a log, the latest first: header writes, datagrams, the ends of streams, PUBLISH_DONE.
Whether a header write succeeds is part of a step: cancelling the opens in flight, as `Done` does,
only makes more of them fail.
-/

namespace MoqGo.Session
namespace Publish

open Lib List Option

/-- A call under way, by the step it takes next. -/
inductive Call
  /-- `OpenSubgroup`, admitted: `openSubgroup` opens the stream and writes its header. -/
  | opening (id : Nat)
  /-- `OpenSubgroup`, the header written: the subgroup is registered. -/
  | registering (id : Nat)
  /-- `SendDatagram`, admitted: the datagram is sent. -/
  | sending (id : Nat)
  /-- The deferred `opening.Done()` of one of these. -/
  | leaving
  /-- `Close` or `Cancel` of a subgroup, the stream ended: `forget`. -/
  | forgetting (id : Nat)
  /-- `Done`, the publication ended: `opening.Wait()`. -/
  | waiting
  /-- `Done`: the set of open subgroups is taken. -/
  | taking
  /-- `Done`: the subgroups `left` are reset, then PUBLISH_DONE is written. -/
  | resetting (left : List Nat) (count : Nat)
deriving DecidableEq, Repr

/-- What the peer can see. -/
inductive Event
  /-- A subgroup stream is opened, and its header written whole or not. -/
  | header (id : Nat) (ok : Bool)
  | datagram (id : Nat)
  /-- A subgroup stream is FINished or reset by the application. -/
  | closed (id : Nat)
  /-- A subgroup stream is reset by `Done`. -/
  | reset (id : Nat)
  | publishDone (streamCount : Nat)
deriving DecidableEq, Repr

/-- `Publication`. -/
structure Publication where
  ended : Bool := false
  /-- The `WaitGroup`. -/
  opening : Nat := 0
  subgroupCount : Nat := 0
  /-- `open`, `none` for the nil map. -/
  openSet : Option (List Nat) := some []
  calls : List Call := []
  /-- The calls admitted so far, which name subgroups and datagrams. -/
  admitted : Nat := 0
  log : List Event := []
  /-- An entry was assigned in the nil map. -/
  panicked : Bool := false
deriving DecidableEq, Repr

namespace Publication

/-- The call has taken its step. -/
def leave (s : Publication) (c : Call) : Publication := { s with calls := s.calls.erase c }

def enter (s : Publication) (c : Call) : Publication := { s with calls := c :: s.calls }

def note (s : Publication) (e : Event) : Publication := { s with log := e :: s.log }

/-- The admission of `OpenSubgroup` and `SendDatagram`, under the lock. -/
def admission (s : Publication) (paused : Bool) (c : Nat → Call) : Publication :=
  if s.ended || paused then s
  else { s with
    opening := s.opening + 1
    admitted := s.admitted + 1
    calls := c s.admitted :: s.calls }

/-- The step of a call, which has been taken off the list. `ok` is whether a write succeeds, and
    `pick` the subgroup that comes next in `Done`'s walk through the map. -/
def advance (s : Publication) (ok : Bool) (pick : Nat) : Call → Option Publication
  | .opening id =>
    some ((s.note (.header id ok)).enter (if ok then .registering id else .leaving))
  | .registering id =>
    match s.openSet with
    | none => some { s with subgroupCount := s.subgroupCount + 1, panicked := true }
    | some o =>
      some { s with
        subgroupCount := s.subgroupCount + 1
        openSet := some (id :: o)
        calls := .leaving :: s.calls }
  | .sending id => some ((if ok then s.note (.datagram id) else s).enter .leaving)
  | .leaving => some { s with opening := s.opening - 1 }
  -- deleting from the nil map does nothing
  | .forgetting id => some { s with openSet := s.openSet.map (·.filter (· ≠ id)) }
  | .waiting => if s.opening = 0 then some (s.enter .taking) else none
  | .taking =>
    some { s with
      openSet := none
      calls := .resetting (s.openSet.getD []) s.subgroupCount :: s.calls }
  | .resetting left count =>
    if left = [] then some (if ok then s.note (.publishDone count) else s)
    else if pick ∈ left then
      some ((s.note (.reset pick)).enter (.resetting (left.filter (· ≠ pick)) count))
    else none

end Publication

inductive Act
  | openSubgroup (paused : Bool)
  | sendDatagram (paused : Bool)
  /-- `Close` or `Cancel` of a subgroup that `OpenSubgroup` returned. -/
  | close (id : Nat)
  | done
  /-- The next step of a call. -/
  | go (c : Call) (ok : Bool) (pick : Nat)
deriving DecidableEq, Repr

namespace Publication

def step (s : Publication) : Act → Option Publication
  | .openSubgroup paused => some (s.admission paused .opening)
  | .sendDatagram paused => some (s.admission paused .sending)
  | .close id =>
    if .header id true ∈ s.log ∧ .registering id ∉ s.calls then
      some ((s.note (.closed id)).enter (.forgetting id))
    else none
  | .done =>
    if s.ended then some s else some { s with ended := true, calls := .waiting :: s.calls }
  | .go c ok pick => if c ∈ s.calls then (s.leave c).advance ok pick c else none

end Publication

/-! ## What holds of every run -/

/-- The call is counted by the `WaitGroup`. -/
def Call.pends : Call → Bool
  | .opening _ | .registering _ | .sending _ | .leaving => true
  | _ => false

/-- The call is a `Done` that ends the publication. -/
def Call.ends : Call → Bool
  | .waiting | .taking | .resetting _ _ => true
  | _ => false

def Call.registers : Call → Bool
  | .registering _ => true
  | _ => false

/-- A PUBLISH_DONE. -/
def Event.isDone : Event → Bool
  | .publishDone _ => true
  | _ => false

def Event.isHeader : Event → Bool
  | .header _ true => true
  | _ => false

/-- A stream is opened or a datagram sent. -/
def Event.sends : Event → Bool
  | .header _ _ | .datagram _ => true
  | _ => false

/-- The OpenSubgroup calls whose header was written. -/
def headers (log : List Event) : Nat := log.countP Event.isHeader

def Over (log : List Event) (id : Nat) : Prop := .closed id ∈ log ∨ .reset id ∈ log

/-- A PUBLISH_DONE in the log is the only one, counts the headers before it, comes after the end of
    every stream, and nothing is sent after it. -/
def Exact : List Event → Prop
  | [] => True
  | e :: log =>
    Exact log ∧ (e.sends = true ∨ e.isDone = true → log.countP Event.isDone = 0) ∧
      ∀ count, e = .publishDone count →
        count = headers log ∧ ∀ id, .header id true ∈ log → Over log id

/-- What the next step of a call relies on. -/
def CallOk (s : Publication) : Call → Prop
  | .forgetting id => .closed id ∈ s.log
  | .waiting => s.openSet ≠ none
  | .taking => s.openSet ≠ none ∧ s.opening = 0
  | .resetting left count =>
    s.openSet = none ∧ count = headers s.log ∧
      ∀ id, .header id true ∈ s.log → Over s.log id ∨ id ∈ left
  | _ => True

structure Inv (s : Publication) : Prop where
  waits : s.opening = s.calls.countP Call.pends
  once : s.calls.countP Call.ends + s.log.countP Event.isDone ≤ s.ended.toNat
  quiet : s.openSet = none → s.ended = true ∧ s.opening = 0
  written : s.log.countP Event.isDone ≠ 0 → s.openSet = none
  count : s.openSet ≠ none → s.subgroupCount + s.calls.countP Call.registers = headers s.log
  covered : ∀ o, s.openSet = some o → ∀ id, .header id true ∈ s.log →
    Over s.log id ∨ id ∈ o ∨ .registering id ∈ s.calls
  calls : ∀ c ∈ s.calls, CallOk s c
  exact : Exact s.log
  sane : s.panicked = false

theorem inv_init : Inv {} where
  waits := rfl
  once := Nat.le_refl _
  quiet := nofun
  written := nofun
  count _ := rfl
  covered _ _ _ := nofun
  calls _ := nofun
  exact := trivial
  sane := rfl

variable {s s' : Publication} {c c' : Call} {e : Event} {id count : Nat}

/-! ### The parts of a step -/

theorem mem_leave_of_ne (h : c' ≠ c) : c' ∈ (s.leave c).calls ↔ c' ∈ s.calls :=
  mem_erase_of_ne h

theorem Over.cons {log : List Event} (h : Over log id) (e : Event) : Over (e :: log) id :=
  h.imp (mem_cons_of_mem e) (mem_cons_of_mem e)

theorem headers_cons (e : Event) (log : List Event) :
    headers (e :: log) = headers log + e.isHeader.toNat :=
  countP_cons_toNat log e _

theorem headers_append {es log : List Event} (h : ∀ e ∈ es, e.isHeader = false) :
    headers (es ++ log) = headers log := by
  have hzero : es.countP Event.isHeader = 0 :=
    countP_eq_zero.mpr fun e he => Bool.eq_false_iff.mp (h e he)
  rw [headers, countP_append, hzero, Nat.zero_add]
  rfl

/-- The log grows, and not by a header. -/
theorem CallOk.grows (h : CallOk s c) (es : List Event)
    (hopen : s'.openSet = none ↔ s.openSet = none) (hopening : s'.opening = s.opening)
    (hlog : s'.log = es ++ s.log) (hes : ∀ e ∈ es, e.isHeader = false) : CallOk s' c := by
  have hmem : ∀ e ∈ s.log, e ∈ s'.log := fun e he => hlog ▸ mem_append_right es he
  cases c with
  | forgetting id => exact hmem _ h
  | waiting => exact mt hopen.mp h
  | taking => exact ⟨mt hopen.mp h.1, hopening.trans h.2⟩
  | resetting left count =>
    obtain ⟨hnone, hcount, hleft⟩ := h
    refine ⟨hopen.mpr hnone, by rw [hlog, headers_append hes, hcount], fun id hid => ?_⟩
    rw [hlog] at hid
    rcases mem_append.mp hid with hid | hid
    · cases hes _ hid
    · exact (hleft id hid).imp_left (·.imp (hmem _) (hmem _))
  | _ => trivial

theorem CallOk.congr (h : CallOk s c) (hopen : s'.openSet = s.openSet)
    (hopening : s'.opening = s.opening) (hlog : s'.log = s.log) : CallOk s' c :=
  h.grows [] (by rw [hopen]) hopening hlog nofun

section

variable (h : Inv s)
include h

/-- **While a call pends, `Done` has not taken the set**, so it is not nil and nothing is sent. -/
theorem Inv.busy (hc : c ∈ s.calls) (hp : c.pends = true) :
    s.openSet ≠ none ∧ s.log.countP Event.isDone = 0 ∧
      ∀ c' ∈ s.calls, c' ≠ .taking ∧ ∀ left count, c' ≠ .resetting left count := by
  have hpos : 0 < s.opening := by
    rw [h.waits]
    exact countP_pos_iff.mpr ⟨c, hc, hp⟩
  have hopen : s.openSet ≠ none := by
    intro hnone
    have := (h.quiet hnone).2
    omega
  refine ⟨hopen, by_contra fun hdone => hopen (h.written hdone), ?_⟩
  intro c' hc'
  constructor
  · rintro rfl
    have : s.opening = 0 := (h.calls _ hc').2
    omega
  · rintro left count rfl
    exact hopen (h.calls _ hc').1

theorem Inv.ended_of_ends (hc : c ∈ s.calls) (he : c.ends = true) : s.ended = true := by
  have hpos : 0 < s.calls.countP Call.ends := countP_pos_iff.mpr ⟨c, hc, he⟩
  have honce := h.once
  cases hended : s.ended with
  | true => rfl
  | false =>
    rw [hended, Bool.toNat_false] at honce
    omega

/-- A call that goes on counts as it did. -/
theorem Inv.swap (hc : c ∈ s.calls) (c' : Call) (hp : c'.pends = c.pends) (he : c'.ends = c.ends) :
    s.opening = (c' :: s.calls.erase c).countP Call.pends ∧
      (c' :: s.calls.erase c).countP Call.ends + s.log.countP Event.isDone ≤ s.ended.toNat := by
  have hpends := countP_cons_erase hc c' Call.pends
  have hends := countP_cons_erase hc c' Call.ends
  rw [hp] at hpends
  rw [he] at hends
  have hwaits := h.waits
  have honce := h.once
  omega

/-! ### One step -/

theorem Inv.admission (paused : Bool) {c : Nat → Call}
    (hc : ∀ id, (c id).pends = true ∧ (c id).ends = false ∧ (c id).registers = false ∧
      ∀ s, CallOk s (c id)) : Inv (s.admission paused c) := by
  unfold Publication.admission
  split_ifs with hrefuse
  · exact h
  · have hended : s.ended = false := by
      simp only [Bool.or_eq_true, not_or, Bool.not_eq_true] at hrefuse
      exact hrefuse.1
    obtain ⟨hp, he, hr, hok⟩ := hc s.admitted
    refine ⟨?_, ?_, ?_, h.written, ?_, ?_, ?_, h.exact, h.sane⟩
    · simp only [countP_cons_toNat, hp, h.waits, Bool.toNat_true]
    · simp only [countP_cons_toNat, he, Bool.toNat_false, Nat.add_zero]
      exact h.once
    · intro hnone
      have := (h.quiet hnone).1
      rw [hended] at this
      cases this
    · intro hopen
      simp only [countP_cons_toNat, hr, Bool.toNat_false, Nat.add_zero]
      exact h.count hopen
    · intro o ho id hid
      exact (h.covered o ho id hid).imp_right (·.imp_right (mem_cons_of_mem _))
    · intro c' hc'
      rcases mem_cons.mp hc' with rfl | hc'
      · exact hok _
      · have hold := h.calls c' hc'
        cases c' with
        | taking =>
          have := h.ended_of_ends hc' rfl
          rw [hended] at this
          cases this
        | forgetting id => exact hold
        | waiting => exact hold
        | resetting left count => exact hold
        | _ => trivial

theorem Inv.done (hended : s.ended = false) :
    Inv { s with ended := true, calls := .waiting :: s.calls } := by
  have honce := h.once
  rw [hended, Bool.toNat_false] at honce
  refine ⟨h.waits, ?_, ?_, h.written, h.count, ?_, ?_, h.exact, h.sane⟩
  · simp only [countP_cons_toNat, Bool.toNat_true, Call.ends]
    omega
  · intro hnone
    exact ⟨rfl, (h.quiet hnone).2⟩
  · intro o ho id hid
    exact (h.covered o ho id hid).imp_right (·.imp_right (mem_cons_of_mem _))
  · intro c hc
    rcases mem_cons.mp hc with rfl | hc
    · intro hnone
      have := (h.quiet hnone).1
      rw [hended] at this
      cases this
    · exact (h.calls c hc).congr rfl rfl rfl

theorem Inv.note (he : e.isHeader = false) (hd : e.isDone = false)
    (hs : e.sends = true → s.log.countP Event.isDone = 0) : Inv (s.note e) := by
  have hdone : (e :: s.log).countP Event.isDone = s.log.countP Event.isDone := by
    rw [countP_cons_toNat, hd]
    rfl
  refine ⟨h.waits, ?_, h.quiet, ?_, ?_, ?_, ?_, ⟨h.exact, ?_, ?_⟩, h.sane⟩
  · exact hdone ▸ h.once
  · exact hdone ▸ h.written
  · intro hopen
    refine (h.count hopen).trans ?_
    rw [Publication.note, headers_cons, he]
    rfl
  · intro o ho id hid
    rcases mem_cons.mp hid with rfl | hid
    · cases he
    · exact (h.covered o ho id hid).imp_left (·.cons e)
  · intro c hc
    exact (h.calls c hc).grows [e] .rfl rfl rfl (by simpa using he)
  · rintro (hsends | hisDone)
    · exact hs hsends
    · rw [hd] at hisDone
      cases hisDone
  · rintro count rfl
    cases hd

theorem Inv.leave (hc : c ∈ s.calls) (hp : c.pends = false) : Inv (s.leave c) := by
  have hregisters : ∀ id, c ≠ .registering id := by
    rintro id rfl
    cases hp
  refine ⟨?_, ?_, h.quiet, h.written, ?_, ?_, ?_, h.exact, h.sane⟩
  · have := countP_erase_add hc Call.pends
    rw [hp, ← h.waits] at this
    exact this.symm
  · have := countP_erase_add hc Call.ends
    have honce := h.once
    simp only [Publication.leave]
    omega
  · intro hopen
    have hregs := countP_erase_add hc Call.registers
    have hc' : c.registers = false := by
      cases c with
      | registering id => exact absurd rfl (hregisters id)
      | _ => rfl
    rw [hc', Bool.toNat_false, Nat.add_zero] at hregs
    exact hregs ▸ h.count hopen
  · intro o ho id hid
    refine (h.covered o ho id hid).imp_right (·.imp_right fun hreg => ?_)
    exact (mem_leave_of_ne (hregisters id).symm).mpr hreg
  · intro c' hc'
    exact (h.calls c' (mem_of_mem_erase hc')).congr rfl rfl rfl

theorem Inv.enter (hp : c.pends = false) (he : c.ends = false) (hok : CallOk s c) :
    Inv (s.enter c) := by
  have hr : c.registers = false := by
    cases c with
    | registering id => cases hp
    | _ => rfl
  refine ⟨?_, ?_, h.quiet, h.written, ?_, ?_, ?_, h.exact, h.sane⟩
  · simp only [Publication.enter, countP_cons_toNat, hp]
    exact h.waits
  · simp only [Publication.enter, countP_cons_toNat, he]
    exact h.once
  · simp only [Publication.enter, countP_cons_toNat, hr]
    exact h.count
  · intro o ho id hid
    exact (h.covered o ho id hid).imp_right (·.imp_right (mem_cons_of_mem _))
  · intro c' hc'
    rcases mem_cons.mp hc' with rfl | hc'
    · exact hok.congr rfl rfl rfl
    · exact (h.calls c' hc').congr rfl rfl rfl

theorem Inv.goOn (hc : c ∈ s.calls) (hp : c'.pends = c.pends)
    (he : c'.ends = c.ends) (hr : c.registers = false) (hr' : c'.registers = false)
    (hok : CallOk s c') : Inv ((s.leave c).enter c') := by
  have hregs := countP_cons_erase hc c' Call.registers
  rw [hr, hr'] at hregs
  obtain ⟨hwaits, honce⟩ := h.swap hc c' hp he
  refine ⟨hwaits, honce, h.quiet, h.written, ?_, ?_, ?_, h.exact, h.sane⟩
  · exact (Nat.add_right_cancel hregs).symm ▸ h.count
  · intro o ho id hid
    refine (h.covered o ho id hid).imp_right (·.imp_right fun hreg => ?_)
    refine mem_cons_of_mem _ ((mem_leave_of_ne ?_).mpr hreg)
    rintro rfl
    cases hr
  · intro c'' hc''
    rcases mem_cons.mp hc'' with rfl | hc''
    · exact hok.congr rfl rfl rfl
    · exact (h.calls c'' (mem_of_mem_erase hc'')).congr rfl rfl rfl

/-- While a call pends, the other calls rely on no more than the ends that are in the log and
    on the set not being nil. -/
theorem Inv.calls_of_busy (hc : c ∈ s.calls) (hp : c.pends = true)
    (hopen : s'.openSet ≠ none) (hlog : ∀ e ∈ s.log, e ∈ s'.log) :
    ∀ c' ∈ s.calls, CallOk s' c' := by
  obtain ⟨-, -, hnone⟩ := h.busy hc hp
  intro c' hc'
  obtain ⟨htaking, hresetting⟩ := hnone c' hc'
  cases c' with
  | forgetting id => exact hlog _ (h.calls _ hc')
  | waiting => exact hopen
  | taking => exact absurd rfl htaking
  | resetting left count => exact absurd rfl (hresetting left count)
  | _ => trivial

theorem Inv.header (hc : .opening id ∈ s.calls) :
    Inv (((s.leave (.opening id)).note (.header id true)).enter (.registering id)) := by
  obtain ⟨hopen, hdone, -⟩ := h.busy hc rfl
  obtain ⟨hwaits, honce⟩ := h.swap hc (.registering id) rfl rfl
  refine ⟨hwaits, honce, h.quiet, h.written, fun _ => ?_, ?_, ?_,
    ⟨h.exact, fun _ => hdone, nofun⟩, h.sane⟩
  · have hcount := h.count hopen
    have hregs : _ = _ + 1 := countP_cons_erase hc (.registering id) Call.registers
    rw [Publication.enter, Publication.note, Publication.leave, headers_cons, ← hcount]
    exact (congrArg (s.subgroupCount + ·) hregs).trans (Nat.add_assoc _ _ _).symm
  · intro o ho id' hid'
    rcases mem_cons.mp hid' with heq | hid'
    · cases heq
      exact .inr (.inr mem_cons_self)
    · rcases h.covered o ho id' hid' with hover | ho | hreg
      · exact .inl (hover.cons _)
      · exact .inr (.inl ho)
      · refine .inr (.inr (mem_cons_of_mem _ ((mem_leave_of_ne ?_).mpr hreg)))
        exact Call.noConfusion
  · intro c' hc'
    rcases mem_cons.mp hc' with rfl | hc'
    · trivial
    · refine h.calls_of_busy hc rfl ?_ ?_ c' (mem_of_mem_erase hc')
      · exact hopen
      · exact fun e he => mem_cons_of_mem _ he

theorem Inv.register {o : List Nat} (hc : .registering id ∈ s.calls)
    (ho : s.openSet = some o) : Inv { s.leave (.registering id) with
      subgroupCount := s.subgroupCount + 1
      openSet := some (id :: o)
      calls := .leaving :: s.calls.erase (.registering id) } := by
  obtain ⟨hopen, hdone, -⟩ := h.busy hc rfl
  obtain ⟨hwaits, honce⟩ := h.swap hc .leaving rfl rfl
  refine ⟨hwaits, honce, nofun, fun hne => absurd hdone hne, fun _ => ?_, ?_, ?_, h.exact, h.sane⟩
  · have hregs := countP_cons_erase hc .leaving Call.registers
    simp only [Call.registers, Bool.toNat_true, Bool.toNat_false] at hregs
    have hcount := h.count hopen
    simp only [Publication.leave]
    omega
  · rintro o' ⟨rfl⟩ id' hid'
    rcases h.covered o ho id' hid' with hover | ho | hreg
    · exact .inl hover
    · exact .inr (.inl (mem_cons_of_mem _ ho))
    · rcases eq_or_ne id' id with rfl | hne
      · exact .inr (.inl mem_cons_self)
      · refine .inr (.inr (mem_cons_of_mem _ ((mem_leave_of_ne ?_).mpr hreg)))
        rintro ⟨⟩
        exact hne rfl
  · intro c' hc'
    rcases mem_cons.mp hc' with rfl | hc'
    · trivial
    · refine h.calls_of_busy hc rfl ?_ ?_ c' (mem_of_mem_erase hc')
      · exact nofun
      · exact fun e he => he

theorem Inv.leaving (hc : .leaving ∈ s.calls) :
    Inv { s.leave .leaving with opening := s.opening - 1 } := by
  obtain ⟨hopen, hdone, -⟩ := h.busy hc rfl
  have herase := countP_erase_add hc
  refine ⟨?_, ?_, fun hnone => absurd hnone hopen, h.written, ?_, ?_, ?_, h.exact, h.sane⟩
  · have hpends : _ + 1 = _ := herase Call.pends
    have hwaits := h.waits
    simp only [Publication.leave]
    omega
  · have hends := herase Call.ends
    simp only [Call.ends, Bool.toNat_false, Nat.add_zero] at hends
    exact hends.symm ▸ h.once
  · have hregs := herase Call.registers
    simp only [Call.registers, Bool.toNat_false, Nat.add_zero] at hregs
    exact hregs.symm ▸ h.count
  · intro o ho id hid
    refine (h.covered o ho id hid).imp_right (·.imp_right fun hreg => ?_)
    exact (mem_leave_of_ne Call.noConfusion).mpr hreg
  · intro c' hc'
    refine h.calls_of_busy hc rfl ?_ ?_ c' (mem_of_mem_erase hc')
    · exact hopen
    · exact fun e he => he

theorem Inv.forget (hc : .forgetting id ∈ s.calls) :
    Inv { s.leave (.forgetting id) with openSet := s.openSet.map (·.filter (· ≠ id)) } := by
  have hover : Over s.log id := .inl (h.calls _ hc)
  have hleft := h.leave hc rfl
  have hnone : s.openSet.map (·.filter (· ≠ id)) = none ↔ s.openSet = none :=
    map_eq_none_iff
  refine ⟨hleft.waits, hleft.once, ?_, ?_, ?_, ?_, ?_, h.exact, h.sane⟩
  · exact fun hmap => h.quiet (hnone.mp hmap)
  · exact fun hdone => hnone.mpr (h.written hdone)
  · exact fun hmap => hleft.count fun hopen => hmap (hnone.mpr hopen)
  · intro o' ho' id' hid'
    obtain ⟨o, ho, rfl⟩ := map_eq_some_iff.mp ho'
    rcases hleft.covered o ho id' hid' with hover' | hmem | hreg
    · exact .inl hover'
    · rcases eq_or_ne id' id with rfl | hne
      · exact .inl hover
      · exact .inr (.inl (mem_filter.mpr ⟨hmem, decide_eq_true hne⟩))
    · exact .inr (.inr hreg)
  · intro c' hc'
    exact (hleft.calls c' hc').grows [] hnone rfl rfl nofun

theorem Inv.only (hc : c ∈ s.calls) (he : c.ends = true) :
    (∀ c' ∈ s.calls.erase c, c'.ends = false) ∧ s.log.countP Event.isDone = 0 := by
  have hends := countP_erase_add hc Call.ends
  have honce := h.once
  rw [he, Bool.toNat_true] at hends
  have hended : s.ended.toNat ≤ 1 := Bool.toNat_le _
  constructor
  · intro c' hc'
    have hzero : (s.calls.erase c).countP Call.ends = 0 := by omega
    exact Bool.eq_false_iff.mpr (countP_eq_zero.mp hzero c' hc')
  · omega

/-- `Done` takes the set, and the number of subgroups with it: by now **every header written is
    registered**. -/
theorem Inv.take (hc : .taking ∈ s.calls) :
    Inv { s.leave .taking with
      openSet := none
      calls := .resetting (s.openSet.getD []) s.subgroupCount :: s.calls.erase .taking } := by
  obtain ⟨hopen, hzero⟩ := h.calls _ hc
  obtain ⟨hothers, hdone⟩ := h.only hc rfl
  obtain ⟨o, ho⟩ := ne_none_iff_exists'.mp hopen
  have hnone : ∀ c ∈ s.calls, c.pends = false := by
    intro c hc
    have := countP_eq_zero.mp (h.waits.symm.trans hzero) c hc
    exact Bool.eq_false_iff.mpr this
  have hregs : s.calls.countP Call.registers = 0 := by
    refine countP_eq_zero.mpr fun c hc => ?_
    have := hnone c hc
    cases c with
    | registering id => cases this
    | _ => exact Bool.false_ne_true
  obtain ⟨hwaits, honce⟩ :=
    h.swap hc (.resetting (s.openSet.getD []) s.subgroupCount) rfl rfl
  refine ⟨hwaits, honce, ?_, fun _ => rfl, fun hne => absurd rfl hne, nofun, ?_, h.exact, h.sane⟩
  · exact fun _ => ⟨h.ended_of_ends hc rfl, hzero⟩
  · intro c' hc'
    rcases mem_cons.mp hc' with rfl | hc'
    · refine ⟨rfl, ?_, fun id hid => ?_⟩
      · have hcount := h.count hopen
        rw [hregs] at hcount
        exact hcount
      · rw [ho]
        rcases h.covered o ho id hid with hover | hmem | hreg
        · exact .inl hover
        · exact .inr hmem
        · cases hnone _ hreg
    · have hold := h.calls c' (mem_of_mem_erase hc')
      have hends := hothers c' hc'
      cases c' with
      | forgetting id => exact hold
      | waiting => cases hends
      | taking => cases hends
      | resetting left count => cases hends
      | _ => trivial

theorem Inv.reset {left : List Nat} (hc : .resetting left count ∈ s.calls) :
    Inv (((s.leave (.resetting left count)).note (.reset id)).enter
      (.resetting (left.filter (· ≠ id)) count)) := by
  have hnote : Inv (s.note (.reset id)) := h.note rfl rfl nofun
  refine hnote.goOn hc rfl rfl rfl rfl ?_
  obtain ⟨hnone, hcount, hleft⟩ := hnote.calls _ hc
  refine ⟨hnone, hcount, fun id' hid' => ?_⟩
  rcases hleft id' hid' with hover | hmem
  · exact .inl hover
  · rcases eq_or_ne id' id with rfl | hne
    · exact .inl (.inr mem_cons_self)
    · exact .inr (mem_filter.mpr ⟨hmem, decide_eq_true hne⟩)

theorem Inv.publishDone (hc : .resetting [] count ∈ s.calls) :
    Inv ((s.leave (.resetting [] count)).note (.publishDone count)) := by
  obtain ⟨hnone, hcount, hleft⟩ := h.calls _ hc
  obtain ⟨-, hdone⟩ := h.only hc rfl
  have hgone := h.leave hc rfl
  have hover : ∀ id, .header id true ∈ s.log → Over s.log id :=
    fun id hid => (hleft id hid).resolve_right not_mem_nil
  refine ⟨hgone.waits, ?_, h.quiet, fun _ => hnone, fun hopen => absurd hnone hopen, ?_, ?_,
    ⟨h.exact, fun _ => hdone, ?_⟩, h.sane⟩
  · have hends : _ + 1 = _ := countP_erase_add hc Call.ends
    have honce := h.once
    simp only [Publication.note, Publication.leave, countP_cons_toNat, Event.isDone,
      Bool.toNat_true]
    omega
  · intro o ho
    exact absurd (hnone.symm.trans ho) nofun
  · intro c' hc'
    exact (hgone.calls c' hc').grows [.publishDone count] .rfl rfl rfl (by simp [Event.isHeader])
  · rintro count' ⟨⟩
    exact ⟨hcount, hover⟩

theorem Inv.step {a : Act} (hstep : s.step a = some s') : Inv s' := by
  cases a with
  | openSubgroup paused =>
    cases hstep
    exact h.admission paused fun id => ⟨rfl, rfl, rfl, fun _ => trivial⟩
  | sendDatagram paused =>
    cases hstep
    exact h.admission paused fun id => ⟨rfl, rfl, rfl, fun _ => trivial⟩
  | close id =>
    rw [Publication.step] at hstep
    split_ifs at hstep
    cases hstep
    have hnote : Inv (s.note (.closed id)) := h.note rfl rfl nofun
    exact hnote.enter rfl rfl mem_cons_self
  | done =>
    rw [Publication.step] at hstep
    split_ifs at hstep with hended
    · exact some.inj hstep ▸ h
    · exact some.inj hstep ▸ h.done (Bool.eq_false_iff.mpr hended)
  | go c ok pick =>
    rw [Publication.step] at hstep
    split_ifs at hstep with hc
    cases c with
    | opening id =>
      cases hstep
      cases ok with
      | true => exact h.header hc
      | false =>
        have hnote : Inv (s.note (.header id false)) := h.note rfl rfl fun _ => (h.busy hc rfl).2.1
        exact hnote.goOn hc rfl rfl rfl rfl trivial
    | registering id =>
      obtain ⟨o, ho⟩ := ne_none_iff_exists'.mp (h.busy hc rfl).1
      have hleave : (s.leave (.registering id)).openSet = some o := ho
      simp only [Publication.advance, hleave] at hstep
      exact some.inj hstep ▸ h.register hc ho
    | sending id =>
      cases hstep
      cases ok with
      | true =>
        have hnote : Inv (s.note (.datagram id)) := h.note rfl rfl fun _ => (h.busy hc rfl).2.1
        exact hnote.goOn hc rfl rfl rfl rfl trivial
      | false => exact h.goOn hc rfl rfl rfl rfl trivial
    | leaving => exact some.inj hstep ▸ h.leaving hc
    | forgetting id => exact some.inj hstep ▸ h.forget hc
    | waiting =>
      rw [Publication.advance] at hstep
      split_ifs at hstep with hzero
      exact some.inj hstep ▸ h.goOn hc rfl rfl rfl rfl ⟨h.calls _ hc, hzero⟩
    | taking => exact some.inj hstep ▸ h.take hc
    | resetting left count =>
      rw [Publication.advance] at hstep
      split_ifs at hstep with hleft hok hpick
      · cases hstep
        subst hleft
        exact h.publishDone hc
      · cases hstep
        exact h.leave hc rfl
      · cases hstep
        exact h.reset hc

end

/-! ### Every run -/

theorem inv_run {acts : List Act} (hrun : run Publication.step {} acts = some s) : Inv s :=
  run_inv (fun _ _ _ h hstep => h.step hstep) inv_init hrun

theorem Exact.publishDone {after before : List Event}
    (h : Exact (after ++ .publishDone count :: before)) :
    count = headers before ∧ (∀ id, .header id true ∈ before → Over before id) ∧
      ∀ e ∈ after, e.sends = false := by
  induction after with
  | nil =>
    obtain ⟨hcount, hover⟩ := h.2.2 count rfl
    exact ⟨hcount, hover, nofun⟩
  | cons e after ih =>
    obtain ⟨hcount, hover, hafter⟩ := ih h.1
    refine ⟨hcount, hover, fun e' he' => ?_⟩
    rcases mem_cons.mp he' with rfl | he'
    · -- the PUBLISH_DONE is in the log the event is added to
      refine Bool.eq_false_iff.mpr fun hsends => ?_
      have hnone := countP_eq_zero.mp (h.2.1 (.inl hsends))
      exact hnone _ (mem_append_right _ mem_cons_self) rfl
    · exact hafter e' he'

theorem Event.isHeader_of_not_sends (h : e.sends = false) : e.isHeader = false := by
  cases e with
  | header id ok => cases h
  | _ => rfl

/-- **PUBLISH_DONE is exact.** Whatever the order of the steps of the calls, at most one is
    written. Its Stream Count is the number of headers written, before it and ever; every stream
    with a header has been ended by then, by the application or by `Done`; and no stream is opened
    and no datagram sent after it. The nil map is never assigned to. -/
theorem publish_done_exact {acts : List Act} (hrun : run Publication.step {} acts = some s) :
    s.log.countP Event.isDone ≤ 1 ∧
      (∀ (after before : List Event) (count : Nat),
        s.log = after ++ .publishDone count :: before →
          count = headers before ∧ count = headers s.log ∧
            (∀ id, .header id true ∈ before → .closed id ∈ before ∨ .reset id ∈ before) ∧
            ∀ e ∈ after, e.sends = false) ∧
      s.panicked = false := by
  have h := inv_run hrun
  refine ⟨?_, ?_, h.sane⟩
  · have honce := h.once
    have hended : s.ended.toNat ≤ 1 := Bool.toNat_le _
    omega
  · intro after before count hlog
    obtain ⟨hcount, hover, hafter⟩ := Exact.publishDone (hlog ▸ h.exact)
    refine ⟨hcount, ?_, hover, hafter⟩
    rw [hlog, headers_append fun e he => Event.isHeader_of_not_sends (hafter e he), headers_cons]
    exact hcount

/-- Two opens race `Done`: the header of one is written after the publication has ended, and
    counts; the other fails. A third subgroup was closed, and is forgotten after the set is gone. -/
theorem publish_done_exact_race :
    ∃ s, run Publication.step {}
        [.openSubgroup false, .go (.opening 0) true 0, .go (.registering 0) true 0,
          .go .leaving true 0, .openSubgroup false, .openSubgroup false, .close 0, .done,
          .go (.opening 1) true 0, .go (.opening 2) false 0, .go .leaving true 0,
          .go (.registering 1) true 0, .go .leaving true 0, .openSubgroup false, .done,
          .go .waiting true 0, .go .taking true 0, .go (.forgetting 0) true 0,
          .go (.resetting [1, 0] 2) true 1, .go (.resetting [0] 2) true 0,
          .go (.resetting [] 2) true 0] = some s ∧
      s.log.head? = some (.publishDone 2) ∧ headers s.log = 2 := by
  refine computes_and (by decide +kernel) fun s hs hlast => ?_
  obtain ⟨before, hlog⟩ := head?_eq_some_iff.mp hlast
  exact ((publish_done_exact hs).2.1 [] before 2 hlog).2.1.symm

end Publish
end MoqGo.Session
