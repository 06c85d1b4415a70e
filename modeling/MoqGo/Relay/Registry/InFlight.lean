import MoqGo.Lib.Counts
import MoqGo.Lib.Runs
import MoqGo.Relay.Cache

/-!
# Waiting for Objects that are arriving (`pkg/relay/internal/registry/inflight.go`)

Each inbound subgroup stream has a slot, which names the Object it is part way through: active from
the Object's header to its end, and reused for the next Object. A FETCH registers a `FlightWait` on
the active slots within its range. A slot that ends posts a result to each of its waits, with the
Object if it was cached; the wait takes the results, later, in `drain`, hands the first Object of
each Location over, and counts the streams that abandoned it. When all did, it registers again on
the streams that have started the Object since.

`Flights` is the part of a track entry that these functions work on, with its streams and waits;
a step is one of their lock-atomic operations or a step of `Wait`. The walks over the `inflight`
map are in the order of its list: the order only decides how a wait's `slots` are ordered, which
nothing reads.

**`pending` counts what may still come** (`WaitOk.pending`): for a Location that is neither handed
over nor forgotten, the active slots the wait is registered on plus the results it has not taken.

Four fields of a wait are written and never read: `covered`, the Locations it was registered on;
`forgotten`; `posted`, the Locations a slot ended with an Object before `Wait` took its last look;
and `idle`, the Locations of results that a drain took while no stream was reading them.
-/

namespace MoqGo.Relay

open Message List
open Function (update update_of_ne update_self)

abbrev SlotID := Nat
abbrev WaitID := Nat

/-- `InFlight`. -/
structure InFlight where
  loc : Location := {}
  active : Bool := false
  waiters : List WaitID := []
deriving DecidableEq, Repr

/-- `flightResult`. -/
structure FlightResult where
  loc : Location
  obj : Option CachedObject
deriving DecidableEq, Repr

/-- Where the caller of a wait is. -/
inductive FlightWait.Phase
  | registered
  /-- In `Wait`, before or at its select. -/
  | waiting
  /-- In `Wait`, woken or giving up. -/
  | draining (gaveUp : Bool)
  /-- `Wait` returned, with the Locations still arriving. -/
  | returned (still : List Location)
  /-- `StillArriving`, without `Wait`: FILL_TIMEOUT is 0. -/
  | unwaited (still : List Location)
deriving DecidableEq, Repr

/-- `FlightWait`. -/
structure FlightWait where
  slots : List SlotID := []
  results : List FlightResult := []
  notify : Bool := false
  pending : GoMap Location Nat := ∅
  done : List CachedObject := []
  phase : FlightWait.Phase := .registered
  stopped : Bool := false
  covered : List Location := []
  forgotten : List Location := []
  posted : List Location := []
  idle : List Location := []

namespace FlightWait

/-- The Locations of the Objects handed over. -/
def handed (w : FlightWait) : List Location := w.done.map CachedObject.loc

/-- The caller has what it will get. -/
def ended (w : FlightWait) : Bool :=
  match w.phase with
  | .returned _ | .unwaited _ => true
  | _ => false

/-- A slot's result. -/
def post (w : FlightWait) (loc : Location) (obj : Option CachedObject) : FlightWait :=
  { w with
    results := w.results ++ [⟨loc, obj⟩]
    notify := true
    posted := if obj.isSome && !w.ended then loc :: w.posted else w.posted }

/-- The wait's part of `registerLocked`. -/
def register (w : FlightWait) (f : SlotID) (loc : Location) : FlightWait :=
  { w with
    pending := Lib.more w.pending loc 1
    slots := w.slots ++ [f]
    covered := loc :: w.covered }

/-- `Forget`. -/
def forget (w : FlightWait) (loc : Location) : FlightWait :=
  { w with pending := w.pending.erase loc, forgotten := loc :: w.forgotten }

/-- `drain` takes a result with the Object. -/
def handOver (w : FlightWait) (loc : Location) (obj : CachedObject) : FlightWait :=
  { w with done := w.done ++ [obj], pending := w.pending.erase loc }

/-- `drain` takes a result without it. -/
def abandon (w : FlightWait) (loc : Location) : FlightWait :=
  { w with pending := Lib.less w.pending loc }

/-- `StillArriving`. -/
def stillArriving (w : FlightWait) : List Location := w.pending.keys

end FlightWait

/-- The slots and waits of a track entry. -/
structure Flights where
  slots : SlotID → InFlight := fun _ => {}
  /-- The keys of the entry's `inflight`. -/
  inflight : List SlotID := []
  slotsMade : Nat := 0
  waits : WaitID → FlightWait := fun _ => {}
  waitsMade : Nat := 0

namespace Flights

def setWait (s : Flights) (w : WaitID) (fw : FlightWait) : Flights :=
  { s with waits := update s.waits w fw }

/-- `NewInFlight`. -/
def newInFlight (s : Flights) : Flights :=
  { s with
    slots := update s.slots s.slotsMade {}
    inflight := s.slotsMade :: s.inflight
    slotsMade := s.slotsMade + 1 }

/-- `UpdateLargestAndDetectNew`, as far as the slot goes. -/
def headerRead (s : Flights) (f : SlotID) (loc : Location) : Flights :=
  { s with slots := update s.slots f { s.slots f with loc := loc, active := true } }

/-- The loop of `endInFlightLocked`. -/
def postAll (waits : WaitID → FlightWait) (loc : Location) (obj : Option CachedObject) :
    List WaitID → WaitID → FlightWait
  | [] => waits
  | w :: ws => postAll (update waits w ((waits w).post loc obj)) loc obj ws

/-- `endInFlightLocked`. -/
def endInFlight (s : Flights) (f : SlotID) (obj : Option CachedObject) : Flights :=
  if (s.slots f).active then
    { s with
      waits := postAll s.waits (s.slots f).loc obj (s.slots f).waiters
      slots := update s.slots f { s.slots f with active := false, waiters := [] } }
  else s

/-- `ReleaseInFlight`. -/
def releaseInFlight (s : Flights) (f : SlotID) : Flights :=
  let s := s.endInFlight f none
  { s with inflight := s.inflight.erase f }

/-- `registerLocked`. -/
def registerLocked (s : Flights) (w : WaitID) (f : SlotID) : Flights :=
  { s with
    waits := update s.waits w ((s.waits w).register f (s.slots f).loc)
    slots := update s.slots f
      { s.slots f with waiters := (s.slots f).waiters ++ [w] } }

def registerAll (s : Flights) (w : WaitID) (fs : List SlotID) : Flights :=
  fs.foldl (fun s f => s.registerLocked w f) s

/-- The slots part way through an Object in `[start, stop]`. -/
def within (s : Flights) (start stop : Location) : List SlotID :=
  s.inflight.filter fun f =>
    (s.slots f).active && !(s.slots f).loc.less start && !stop.less (s.slots f).loc

/-- `WaitInFlight`. With nothing to wait for it returns nil. -/
def waitInFlight (s : Flights) (start stop : Location) : Flights :=
  if (s.within start stop).isEmpty then s
  else
    { s with waitsMade := s.waitsMade + 1 }.registerAll s.waitsMade (s.within start stop)

/-- An active slot reads the Object at `loc`. -/
def arriving (s : Flights) (loc : Location) (f : SlotID) : Bool :=
  (s.slots f).active && (s.slots f).loc = loc

def begun (s : Flights) (w : WaitID) (loc : Location) : List SlotID :=
  s.inflight.filter fun f => s.arriving loc f && !(s.slots f).waiters.contains w

/-- An iteration of `drain`. -/
def drainOne (s : Flights) (w : WaitID) (r : FlightResult) : Flights :=
  let fw := s.waits w
  match fw.pending.lookup r.loc with
  | none => s
  | some _ =>
    match r.obj with
    | some obj => s.setWait w (fw.handOver r.loc obj)
    | none =>
      let s := s.setWait w (fw.abandon r.loc)
      if r.loc ∈ (fw.abandon r.loc).pending then s
      else s.registerAll w (s.begun w r.loc)

/-- `drain`. -/
def drain (s : Flights) (w : WaitID) : Flights :=
  let results := (s.waits w).results
  let idle := (results.map (·.loc)).filter fun loc => !s.inflight.any (s.arriving loc)
  let fw := { s.waits w with results := [], idle := idle ++ (s.waits w).idle }
  results.foldl (fun s r => s.drainOne w r) (s.setWait w fw)

/-- `Stop`. -/
def stop (s : Flights) (w : WaitID) : Flights :=
  { s with
    slots := fun f =>
      if f ∈ (s.waits w).slots then
        { s.slots f with waiters := (s.slots f).waiters.filter (· ≠ w) }
      else s.slots f
    waits := update s.waits w { s.waits w with stopped := true } }

def setPhase (s : Flights) (w : WaitID) (phase : FlightWait.Phase) : Flights :=
  s.setWait w { s.waits w with phase := phase }

inductive Act
  | newInFlight
  | headerRead (f : SlotID) (loc : Location)
  | endInFlight (f : SlotID) (obj : Option CachedObject)
  | releaseInFlight (f : SlotID)
  | waitInFlight (start stop : Location)
  | forget (w : WaitID) (loc : Location)
  /-- `Wait` is called. -/
  | wait (w : WaitID)
  /-- `Wait` receives from `notify`. -/
  | notified (w : WaitID)
  /-- `Wait`'s timer fires or its context ends. -/
  | giveUp (w : WaitID)
  | drain (w : WaitID)
  /-- `Wait` finds nothing pending. -/
  | finish (w : WaitID)
  | stillArriving (w : WaitID)
  | stop (w : WaitID)

def step (s : Flights) : Act → Option Flights
  | .newInFlight => some s.newInFlight
  | .headerRead f loc =>
    -- a stream reads a header only after it ended the Object before
    if f ∈ s.inflight ∧ (s.slots f).active = false then some (s.headerRead f loc) else none
  | .endInFlight f obj =>
    -- the cached Object is the slot's
    if f ∈ s.inflight ∧ ∀ o ∈ obj, o.loc = (s.slots f).loc then some (s.endInFlight f obj)
    else none
  | .releaseInFlight f => if f ∈ s.inflight then some (s.releaseInFlight f) else none
  | .waitInFlight start stop => some (s.waitInFlight start stop)
  | .forget w loc =>
    if w < s.waitsMade ∧ (s.waits w).ended = false then
      some (s.setWait w ((s.waits w).forget loc))
    else none
  | .wait w =>
    if w < s.waitsMade ∧ (s.waits w).phase = .registered then some (s.setPhase w .waiting)
    else none
  | .notified w =>
    if (s.waits w).phase = .waiting ∧ (s.waits w).pending.keys ≠ [] ∧
        (s.waits w).notify = true then
      some (s.setWait w { s.waits w with phase := .draining false, notify := false })
    else none
  | .giveUp w =>
    if (s.waits w).phase = .waiting ∧ (s.waits w).pending.keys ≠ [] then
      some (s.setPhase w (.draining true))
    else none
  | .drain w =>
    match (s.waits w).phase with
    | .draining gaveUp =>
      let s := s.drain w
      some (s.setPhase w (if gaveUp then .returned (s.waits w).stillArriving else .waiting))
    | _ => none
  | .finish w =>
    if (s.waits w).phase = .waiting ∧ (s.waits w).pending.keys = [] then
      some (s.setPhase w (.returned []))
    else none
  | .stillArriving w =>
    if w < s.waitsMade ∧ (s.waits w).phase = .registered then
      some (s.setPhase w (.unwaited (s.waits w).stillArriving))
    else none
  | .stop w =>
    if (s.waits w).ended = true ∧ (s.waits w).stopped = false then some (s.stop w) else none

def init : Flights := {}

end Flights

/-! ## One wait -/

namespace FlightWait

def Resolved (w : FlightWait) (loc : Location) : Prop := loc ∈ w.handed ∨ loc ∈ w.forgotten

instance (w : FlightWait) (loc : Location) : Decidable (w.Resolved loc) :=
  inferInstanceAs (Decidable (_ ∨ _))

/-- What may still come for a Location: from `n` slots, and in the results `rs`. -/
def due (w : FlightWait) (n : Location → Nat) (rs : List FlightResult) (loc : Location) : Nat :=
  if w.Resolved loc then 0 else n loc + rs.countP (·.loc = loc)

/-- A wait that is registered on `n loc` active slots at each Location and has yet to take the
    results `rs`. -/
structure WaitOk (w : FlightWait) (n : Location → Nat) (rs : List FlightResult) : Prop where
  pending : w.stopped = false → Lib.Counts w.pending (w.due n rs)
  nodup : w.handed.Nodup
  objs : ∀ r ∈ rs, ∀ o ∈ r.obj, o.loc = r.loc
  posted : ∀ loc ∈ w.posted, w.Resolved loc ∨
    (∀ still, w.phase ≠ .returned still) ∧ loc ∈ w.pending ∧ ∃ r ∈ rs, r.loc = loc ∧ r.obj.isSome
  woken : rs ≠ [] → w.notify = true ∨ (∃ gaveUp, w.phase = .draining gaveUp) ∨ w.ended = true
  returned : ∀ still, w.phase = .returned still → still = w.pending.keys
  stopped : w.stopped = true → w.ended = true

/-- Each Location the wait was registered on was handed over or forgotten, is pending, or was read
    by no stream when its last result was taken. -/
def Covers (w : FlightWait) : Prop :=
  ∀ loc ∈ w.covered, w.Resolved loc ∨ loc ∈ w.idle ∨ loc ∈ w.pending

theorem waitOk_new : WaitOk {} (fun _ => 0) [] where
  pending _ := Lib.Counts.empty.congr fun loc => by simp [due]
  nodup := List.nodup_nil
  objs := by simp
  posted := by simp
  woken h := absurd rfl h
  returned _ h := by cases h
  stopped h := by cases h

variable {w : FlightWait} {n : Location → Nat} {rs : List FlightResult} {loc : Location}
  {gaveUp : Bool}

theorem WaitOk.unresolved (h : w.WaitOk n rs) (hstopped : w.stopped = false)
    (hin : loc ∈ w.pending) : ¬ w.Resolved loc := by
  intro hres
  rw [(h.pending hstopped).mem_iff, due, if_pos hres] at hin
  cases hin

theorem not_returned (hended : w.ended = false) (still : List Location) :
    w.phase ≠ .returned still := by
  intro hphase
  simp [ended, hphase] at hended

theorem WaitOk.post (h : w.WaitOk n rs) {obj : Option CachedObject} (hn : 0 < n loc)
    (hstopped : w.stopped = false) (hobj : ∀ o ∈ obj, o.loc = loc) :
    (w.post loc obj).WaitOk (update n loc (n loc - 1)) (rs ++ [⟨loc, obj⟩]) where
  pending _ := (h.pending hstopped).congr fun l => by
    show (if w.Resolved l then 0 else _) = if w.Resolved l then 0 else _
    split
    · rfl
    · rw [List.countP_append, List.countP_singleton]
      by_cases hl : l = loc
      · subst hl
        rw [update_self]
        simp only [decide_true, if_true]
        omega
      · rw [update_of_ne hl]
        simp [Ne.symm hl]
  nodup := h.nodup
  objs r hr := by
    rcases mem_append.mp hr with hr | hr
    · exact h.objs r hr
    · rw [mem_singleton] at hr
      subst hr
      exact hobj
  posted l hl := by
    have hold : l ∈ w.posted → w.Resolved l ∨ (∀ still, w.phase ≠ .returned still) ∧
        l ∈ w.pending ∧ ∃ r ∈ rs ++ [⟨loc, obj⟩], r.loc = l ∧ r.obj.isSome := by
      intro hl
      rcases h.posted l hl with hr | ⟨hphase, hp, r, hr, hrl⟩
      · exact .inl hr
      · exact .inr ⟨hphase, hp, r, mem_append_left _ hr, hrl⟩
    simp only [FlightWait.post] at hl
    split at hl
    · next hnew =>
      rw [Bool.and_eq_true, Bool.not_eq_true'] at hnew
      rcases mem_cons.mp hl with rfl | hl
      · by_cases hres : w.Resolved l
        · exact .inl hres
        · refine .inr ⟨not_returned hnew.2, ?_, ⟨l, obj⟩, by simp, rfl, hnew.1⟩
          show l ∈ w.pending
          rw [(h.pending hstopped).mem_iff, due, if_neg hres]
          omega
      · exact hold hl
    · exact hold hl
  woken _ := .inl rfl
  returned := h.returned
  stopped := h.stopped

theorem WaitOk.register (h : w.WaitOk n rs) (f : SlotID) (hres : ¬ w.Resolved loc)
    (hended : w.ended = false) :
    (w.register f loc).WaitOk (update n loc (n loc + 1)) rs where
  pending hstopped := ((h.pending hstopped).more loc Nat.one_pos).congr fun l => by
    show _ = if w.Resolved l then 0 else _
    by_cases hl : l = loc
    · subst hl
      rw [update_self, update_self, due, if_neg hres, if_neg hres]
      omega
    · rw [update_of_ne hl, update_of_ne hl, due]
  nodup := h.nodup
  objs := h.objs
  posted l hl := by
    rcases h.posted l hl with hr | ⟨hphase, hp, hr⟩
    · exact .inl hr
    · exact .inr ⟨hphase, (AList.mem_insert _).mpr (.inr hp), hr⟩
  woken := h.woken
  returned still hphase := absurd hphase (not_returned hended still)
  stopped := h.stopped

theorem resolved_forget (w : FlightWait) (loc l : Location) :
    (w.forget loc).Resolved l ↔ w.Resolved l ∨ l = loc := by
  simp only [Resolved, forget, handed, mem_cons]
  tauto

theorem resolved_handOver {obj : CachedObject} (hobj : obj.loc = loc) (l : Location) :
    (w.handOver loc obj).Resolved l ↔ (w.forget loc).Resolved l := by
  rw [resolved_forget]
  simp only [Resolved, handOver, handed, map_append, map_singleton, mem_append, mem_singleton, hobj]
  tauto

theorem Covers.forget (h : w.Covers) (loc : Location) : (w.forget loc).Covers := by
  intro l hl
  rw [resolved_forget]
  by_cases hloc : l = loc
  · exact .inl (.inr hloc)
  · rcases h l hl with hr | hr | hr
    · exact .inl (.inl hr)
    · exact .inr (.inl hr)
    · exact .inr (.inr (AList.mem_erase.mpr ⟨hloc, hr⟩))

theorem WaitOk.forget (h : w.WaitOk n rs) (loc : Location) (hended : w.ended = false) :
    (w.forget loc).WaitOk n rs := by
  refine
    { pending := fun hstopped => ((h.pending hstopped).erase loc).congr fun l => ?_
      nodup := h.nodup
      objs := h.objs
      posted := fun l hl => ?_
      woken := h.woken
      returned := fun still hphase => absurd hphase (not_returned hended still)
      stopped := h.stopped }
  · by_cases hl : l = loc
    · subst hl
      rw [update_self, due, if_pos ((resolved_forget w l l).mpr (.inr rfl))]
    · rw [update_of_ne hl, due, due]
      simp only [resolved_forget, hl, or_false]
  · rw [resolved_forget]
    by_cases hl' : l = loc
    · exact .inl (.inr hl')
    · rcases h.posted l hl with hr | ⟨hphase, hp, hr⟩
      · exact .inl (.inl hr)
      · exact .inr ⟨hphase, AList.mem_erase.mpr ⟨hl', hp⟩, hr⟩

/-- The caller goes on. At the return of `Wait` no result is left whose Location is pending. -/
theorem WaitOk.setPhase (h : w.WaitOk n rs) {phase : Phase} (hended : w.ended = false)
    (hwoken : rs ≠ [] → w.notify = true ∨ (∃ gaveUp, phase = .draining gaveUp) ∨
      (∃ still, phase = .returned still) ∨ ∃ still, phase = .unwaited still)
    (hreturned : ∀ still, phase = .returned still → still = w.pending.keys ∧
      (rs = [] ∨ w.pending.keys = [])) : WaitOk { w with phase := phase } n rs where
  pending := h.pending
  nodup := h.nodup
  objs := h.objs
  posted l hl := by
    rcases h.posted l hl with hr | ⟨-, hp, hr⟩
    · exact .inl hr
    · refine .inr ⟨fun still hphase => ?_, hp, hr⟩
      rcases (hreturned still hphase).2 with hrs | hkeys
      · obtain ⟨r, hr, -⟩ := hr
        simp [hrs] at hr
      · rw [AList.mem_keys, hkeys] at hp
        cases hp
  woken hrs := by
    rcases hwoken hrs with h | h | ⟨still, h⟩ | ⟨still, h⟩
    · exact .inl h
    · exact .inr (.inl h)
    · exact .inr (.inr (by simp only [ended, show phase = .returned still from h]))
    · exact .inr (.inr (by simp only [ended, show phase = .unwaited still from h]))
  returned still hphase := (hreturned still hphase).1
  stopped hs := by
    have hend := h.stopped hs
    rw [hended] at hend
    cases hend

theorem WaitOk.skip {r : FlightResult} (h : w.WaitOk n (r :: rs))
    (hphase : w.phase = .draining gaveUp) (hstopped : w.stopped = false)
    (hout : r.loc ∉ w.pending) :
    w.WaitOk n rs := by
  have hres : w.Resolved r.loc := by
    by_contra hres
    rw [(h.pending hstopped).mem_iff, due, if_neg hres, countP_cons] at hout
    simp at hout
  refine
    { h with
      pending := fun hs => (h.pending hs).congr fun l => ?_
      objs := fun r' hr' => h.objs r' (mem_cons_of_mem _ hr')
      posted := fun l hl => ?_
      woken := fun _ => .inr (.inl ⟨gaveUp, hphase⟩) }
  · rw [due, due]
    split
    · rfl
    · next hl =>
      have hne : r.loc ≠ l := fun heq => hl (heq ▸ hres)
      simp [hne]
  · rcases h.posted l hl with hr | ⟨hph, hp, r', hr', hloc, hsome⟩
    · exact .inl hr
    · rcases mem_cons.mp hr' with rfl | hr'
      · exact absurd hp (hloc ▸ hout)
      · exact .inr ⟨hph, hp, r', hr', hloc, hsome⟩

/-- The wait takes the result as if its Location had been forgotten first. -/
theorem WaitOk.handOver {obj : CachedObject} (h : w.WaitOk n (⟨loc, some obj⟩ :: rs))
    (hphase : w.phase = .draining gaveUp) (hstopped : w.stopped = false) (hin : loc ∈ w.pending) :
    (w.handOver loc obj).WaitOk n rs := by
  have hobj : obj.loc = loc := h.objs _ mem_cons_self obj rfl
  have hfresh := h.unresolved hstopped hin
  have hok : (w.forget loc).WaitOk n rs :=
    (h.forget loc (by simp only [ended, hphase])).skip hphase hstopped
      fun hl => (AList.mem_erase.mp hl).1 rfl
  refine
    { hok with
      pending := fun hs => (hok.pending hs).congr fun l => ?_
      nodup := ?_
      posted := fun l hl => ?_ }
  · simp only [due, resolved_handOver hobj]
  · rw [handed, FlightWait.handOver, map_append, map_singleton, hobj]
    exact h.nodup.append (nodup_singleton _) (by simpa using fun hl => hfresh (.inl hl))
  · rw [resolved_handOver hobj]
    exact hok.posted l hl

theorem mem_abandon_of_ne {l : Location} (hne : l ≠ loc) (hin : l ∈ w.pending) :
    l ∈ (w.abandon loc).pending := by
  simp only [abandon, Lib.less]
  split
  · exact AList.mem_erase.mpr ⟨hne, hin⟩
  · exact (AList.mem_insert _).mpr (.inr hin)

theorem WaitOk.abandon (h : w.WaitOk n (⟨loc, none⟩ :: rs)) (hphase : w.phase = .draining gaveUp)
    (hstopped : w.stopped = false) (hin : loc ∈ w.pending) : (w.abandon loc).WaitOk n rs := by
  have hfresh := h.unresolved hstopped hin
  have hcounts : Lib.Counts (w.abandon loc).pending (w.due n rs) :=
    ((h.pending hstopped).less loc).congr fun l => by
      by_cases hl : l = loc
      · subst hl
        rw [update_self, due, due, if_neg hfresh, if_neg hfresh, countP_cons]
        simp only [decide_true, if_true]
        omega
      · have hne : loc ≠ l := fun heq => hl heq.symm
        rw [update_of_ne hl, due, due, countP_cons]
        simp only [hne, decide_false, Bool.false_eq_true, if_false, Nat.add_zero]
  refine
    { pending := fun _ => hcounts
      nodup := h.nodup
      objs := fun r hr => h.objs r (mem_cons_of_mem _ hr)
      posted := fun l hl => ?_
      woken := fun _ => .inr (.inl ⟨gaveUp, hphase⟩)
      returned := fun still hs => by cases hphase.symm.trans hs
      stopped := h.stopped }
  by_cases hres : w.Resolved l
  · exact .inl hres
  · rcases h.posted l hl with hr | ⟨hph, -, r, hr, hloc, hsome⟩
    · exact .inl hr
    · rcases mem_cons.mp hr with rfl | hr
      · cases hsome
      · refine .inr ⟨hph, ?_, r, hr, hloc, hsome⟩
        rw [hcounts.mem_iff, due, if_neg hres]
        have hpos : 0 < rs.countP (·.loc = l) :=
          countP_pos_iff.mpr ⟨r, hr, by simpa using hloc⟩
        omega

end FlightWait

end MoqGo.Relay
