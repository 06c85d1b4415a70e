import MoqGo.Lib.Runs
import MoqGo.Message.Control
import MoqGo.Session.RequestIDs

/-!
# GOAWAY and its handler (`pkg/moqt/session/goaway.go`)

A session keeps one handler for the peer's GOAWAY. `OnGoaway` puts a handler there, and is meant to
be level-triggered: a handler registered after the GOAWAY runs at once. `handleGoaway` runs the
handler that is there when the GOAWAY arrives. Both hold the session's lock, so each is one step.

One flag, `goawayFired`, keeps the two from running a handler twice, and **it stands for the
session, not for the handler**. Once it is set, by the arrival or by the first registration after
it, nil or not, a later handler is only put into the slot, which nothing reads any more
(`late_handler_lost`). `onGoaway_level_triggered_iff` says that nothing else goes wrong.
-/

namespace MoqGo.Session

open Message.Control List

namespace GoawayHandler

/-- A call of `OnGoaway`, by its number: whether its handler was not nil, and whether a GOAWAY had
    been received. -/
structure Registration where
  id : Nat
  handler : Bool
  late : Bool
deriving DecidableEq, Repr

/-- `Session`, of what GOAWAY is about. A handler is named by its registration. `registered`, newest
    first, and `invoked` record the run. -/
structure State where
  role : Role
  goawayReceived : Option Goaway := none
  goawayCh : Bool := false
  goawayFired : Bool := false
  goawayHandler : Option Nat := none
  registered : List Registration := []
  invoked : List (Nat × Goaway) := []
deriving DecidableEq, Repr

/-- What `handleGoaway` refuses. -/
inductive GoawayError
  | duplicate
  | nonEmptyURI
deriving DecidableEq, Repr

/-- `Session.OnGoaway`, with a handler or with nil. -/
def onGoaway (s : State) (handler : Bool) : State :=
  let id := s.registered.length
  let s := { s with
    registered := ⟨id, handler, s.goawayReceived.isSome⟩ :: s.registered }
  match s.goawayReceived, s.goawayFired with
  | some g, false =>
    { s with goawayFired := true, invoked := if handler then (id, g) :: s.invoked else s.invoked }
  | _, _ => { s with goawayHandler := if handler then some id else none }

/-- `Session.checkGoawayURI`. -/
def checkGoawayURI (s : State) (m : Goaway) : Except GoawayError Unit :=
  if s.role = .server ∧ m.newSessionURI ≠ [] then .error .nonEmptyURI else .ok ()

/-- `Session.handleGoaway`. -/
def handleGoaway (s : State) (m : Goaway) : Except GoawayError State :=
  match s.goawayReceived with
  | some _ => .error .duplicate
  | none =>
    match checkGoawayURI s m with
    | .error err => .error err
    | .ok () =>
      let s := { s with goawayReceived := some m, goawayCh := true }
      match s.goawayHandler, s.goawayFired with
      | some id, false => .ok { s with goawayFired := true, invoked := (id, m) :: s.invoked }
      | _, _ => .ok s

inductive Action
  | onGoaway (handler : Bool)
  | goaway (m : Goaway)
deriving DecidableEq, Repr

/-- A GOAWAY that is refused changes nothing. -/
def step (s : State) : Action → Option State
  | .onGoaway handler => some (onGoaway s handler)
  | .goaway m => some ((handleGoaway s m).toOption.getD s)

def init (role : Role) : State := { role := role }

/-- **The call that goes wrong**: a handler is registered after the GOAWAY, and the flag is set
    already. -/
def Lost (s : State) (a : Action) : Prop :=
  a = .onGoaway true ∧ s.goawayReceived.isSome = true ∧ s.goawayFired = true

instance (s : State) (a : Action) : Decidable (Lost s a) := inferInstanceAs (Decidable (_ ∧ _))

/-- The last registration before the GOAWAY. -/
def lastBefore (s : State) : Option Registration := s.registered.find? (!·.late)

/-- The handler ran. -/
def Invoked (s : State) (id : Nat) : Prop := id ∈ s.invoked.map Prod.fst

def LateInvoked (s : State) : Prop :=
  ∀ r ∈ s.registered, r.late = true → r.handler = true → Invoked s r.id

/-! ## What holds in every run -/

def Numbered : List Registration → Prop
  | [] => True
  | r :: rs => r.id = rs.length ∧ Numbered rs

theorem Numbered.lt {rs : List Registration} (h : Numbered rs) : ∀ r ∈ rs, r.id < rs.length := by
  induction rs with
  | nil => exact nofun
  | cons r rs ih =>
    intro r' hr'
    rcases mem_cons.mp hr' with rfl | hr'
    · rw [h.1]
      exact Nat.lt_succ_self _
    · exact Nat.lt_succ_of_lt (ih h.2 r' hr')

/-- The slot holds the handler of the last registration, as long as no GOAWAY came. -/
def Slot (s : State) : Prop :=
  s.goawayHandler = s.registered.head?.bind fun r => if r.handler then some r.id else none

structure Inv (s : State) : Prop where
  numbered : Numbered s.registered
  /-- What ran was registered, and ran with the GOAWAY that came. -/
  registered : ∀ p ∈ s.invoked, s.goawayReceived = some p.2 ∧
    ∃ r ∈ s.registered, r.id = p.1 ∧ r.handler = true
  /-- **The flag is the session's**: at most one handler runs. -/
  once : s.invoked.length ≤ 1
  unfired : s.goawayFired = false → s.invoked = []
  waiting : s.goawayReceived = none →
    s.goawayFired = false ∧ Slot s ∧ ∀ r ∈ s.registered, r.late = false
  arrived : s.goawayReceived.isSome = true → ∀ r, lastBefore s = some r →
    (Invoked s r.id ↔ r.handler = true)

theorem Inv.init (role : Role) : Inv (init role) where
  numbered := trivial
  registered := nofun
  once := Nat.zero_le _
  unfired _ := rfl
  waiting _ := ⟨rfl, rfl, nofun⟩
  arrived h := nomatch h

variable {s s' : State} {g : Goaway}

theorem Inv.not_invoked_length (h : Inv s) : ¬ Invoked s s.registered.length := by
  intro hin
  obtain ⟨p, hp, hid⟩ := mem_map.mp hin
  obtain ⟨-, r, hr, hr', -⟩ := h.registered p hp
  have hlt := h.numbered.lt r hr
  omega

/-! ### `OnGoaway` -/

theorem onGoaway_waiting (hnone : s.goawayReceived = none) (handler : Bool) :
    onGoaway s handler = { s with
      registered := ⟨s.registered.length, handler, false⟩ :: s.registered
      goawayHandler := if handler then some s.registered.length else none } := by
  simp [onGoaway, hnone]

theorem onGoaway_first (hsome : s.goawayReceived = some g) (hfired : s.goawayFired = false)
    (handler : Bool) : onGoaway s handler = { s with
      registered := ⟨s.registered.length, handler, true⟩ :: s.registered
      goawayFired := true
      invoked := if handler then (s.registered.length, g) :: s.invoked else s.invoked } := by
  simp [onGoaway, hsome, hfired]

theorem onGoaway_fired (hsome : s.goawayReceived = some g) (hfired : s.goawayFired = true)
    (handler : Bool) : onGoaway s handler = { s with
      registered := ⟨s.registered.length, handler, true⟩ :: s.registered
      goawayHandler := if handler then some s.registered.length else none } := by
  simp [onGoaway, hsome, hfired]

section

variable (h : Inv s)
include h

theorem Inv.onGoaway_waiting (hnone : s.goawayReceived = none) (handler : Bool) :
    Inv (onGoaway s handler) := by
  obtain ⟨hfired, -, hlate⟩ := h.waiting hnone
  rw [GoawayHandler.onGoaway_waiting hnone]
  refine ⟨⟨rfl, h.numbered⟩, ?_, h.once, h.unfired, fun _ => ⟨hfired, rfl, ?_⟩, ?_⟩
  · intro p hp
    obtain ⟨hp, r, hr, hr'⟩ := h.registered p hp
    exact ⟨hp, r, mem_cons_of_mem _ hr, hr'⟩
  · exact forall_mem_cons.mpr ⟨rfl, hlate⟩
  · intro (hsome : s.goawayReceived.isSome = true)
    rw [hnone] at hsome
    cases hsome

theorem Inv.onGoaway_first (hsome : s.goawayReceived = some g)
    (hfired : s.goawayFired = false) (handler : Bool) : Inv (onGoaway s handler) := by
  have hinvoked := h.unfired hfired
  rw [GoawayHandler.onGoaway_first hsome hfired, hinvoked]
  refine ⟨⟨rfl, h.numbered⟩, ?_, ?_, nofun, ?_, ?_⟩
  · intro p (hp : p ∈ if handler then [(s.registered.length, g)] else [])
    cases handler with
    | true =>
      rw [mem_singleton.mp hp]
      exact ⟨hsome, _, mem_cons_self, rfl, rfl⟩
    | false => cases hp
  · cases handler <;> simp
  · intro (hnone : s.goawayReceived = none)
    rw [hsome] at hnone
    cases hnone
  · intro _ r (hr : s.registered.find? (!·.late) = some r)
    -- nothing ran before, so the last registration before the GOAWAY was nil
    have hold := h.arrived (by rw [hsome]; rfl) r hr
    have hlt := h.numbered.lt r (mem_of_find?_eq_some hr)
    have hnil : ¬ Invoked s r.id := by simp [Invoked, hinvoked]
    have hnew : r.id ∉ (if handler then [(s.registered.length, g)] else []).map Prod.fst := by
      cases handler with
      | true =>
        intro hmem
        have hid := mem_singleton.mp hmem
        omega
      | false => simp
    exact ⟨fun hin => absurd hin hnew, fun hhandler => absurd (hold.mpr hhandler) hnil⟩

theorem Inv.onGoaway_fired (hsome : s.goawayReceived = some g)
    (hfired : s.goawayFired = true) (handler : Bool) : Inv (onGoaway s handler) := by
  rw [GoawayHandler.onGoaway_fired hsome hfired]
  refine ⟨⟨rfl, h.numbered⟩, ?_, h.once, h.unfired, ?_, ?_⟩
  · intro p hp
    obtain ⟨hp, r, hr, hr'⟩ := h.registered p hp
    exact ⟨hp, r, mem_cons_of_mem _ hr, hr'⟩
  · intro (hnone : s.goawayReceived = none)
    rw [hsome] at hnone
    cases hnone
  · intro harrived r hr
    exact h.arrived harrived r hr

theorem Inv.onGoaway (handler : Bool) : Inv (onGoaway s handler) := by
  cases hreceived : s.goawayReceived with
  | none => exact h.onGoaway_waiting hreceived handler
  | some g =>
    cases hfired : s.goawayFired with
    | false => exact h.onGoaway_first hreceived hfired handler
    | true => exact h.onGoaway_fired hreceived hfired handler

/-! ### `handleGoaway` -/

/-- What an accepted GOAWAY does: it is the first, and runs the handler in the slot. -/
theorem handleGoaway_ok {m : Goaway} (hs : handleGoaway s m = .ok s') :
    s.goawayReceived = none ∧ s' = { s with
      goawayReceived := some m
      goawayCh := true
      goawayFired := s.goawayHandler.isSome
      invoked := (s.goawayHandler.map (·, m)).toList } := by
  unfold handleGoaway at hs
  cases hreceived : s.goawayReceived with
  | some g =>
    rw [hreceived] at hs
    cases hs
  | none =>
    obtain ⟨hfired, -, -⟩ := h.waiting hreceived
    have hinvoked := h.unfired hfired
    rw [hreceived] at hs
    simp only at hs
    split at hs
    · cases hs
    · rw [hfired] at hs
      cases hslot : s.goawayHandler with
      | none =>
        rw [hslot] at hs
        cases hs
        simp [hinvoked]
      | some id =>
        rw [hslot] at hs
        cases hs
        simp [hinvoked]

theorem Inv.handleGoaway {m : Goaway} (hs : handleGoaway s m = .ok s') : Inv s' := by
  obtain ⟨hnone, rfl⟩ := handleGoaway_ok h hs
  obtain ⟨-, hslot, hlate⟩ := h.waiting hnone
  refine ⟨h.numbered, ?_, ?_, ?_, nofun, ?_⟩
  · intro p (hp : p ∈ (s.goawayHandler.map (·, m)).toList)
    simp only [Option.mem_toList, Option.map_eq_some_iff] at hp
    obtain ⟨id, hid, rfl⟩ := hp
    rw [hslot, Option.bind_eq_some_iff] at hid
    obtain ⟨r, hr, hhandler⟩ := hid
    split_ifs at hhandler with hr'
    exact ⟨rfl, r, mem_of_mem_head? hr, Option.some.inj hhandler, hr'⟩
  · cases s.goawayHandler <;> simp
  · intro hfired
    cases hhandler : s.goawayHandler with
    | none => rfl
    | some id => simp [hhandler] at hfired
  · intro _ r (hr : s.registered.find? (!·.late) = some r)
    have hhead : s.registered.head? = some r := by
      cases hregs : s.registered with
      | nil =>
        rw [hregs] at hr
        cases hr
      | cons r₀ rs =>
        have hearly : r₀.late = false := hlate r₀ (by simp [hregs])
        rw [hregs, List.find?_cons_of_pos (by simp [hearly])] at hr
        exact hr
    have hhandler : s.goawayHandler = if r.handler then some r.id else none := by
      rw [hslot, hhead]
      rfl
    cases hr' : r.handler <;> simp [Invoked, hhandler, hr']

theorem Inv.step {a : Action} (hs : step s a = some s') : Inv s' := by
  cases a with
  | onGoaway handler =>
    cases hs
    exact h.onGoaway handler
  | goaway m =>
    cases hs
    cases hm : GoawayHandler.handleGoaway s m with
    | error err => exact h
    | ok s' => exact h.handleGoaway hm

/-! ## Handlers that come late -/

theorem lateInvoked_onGoaway (handler : Bool) :
    LateInvoked (onGoaway s handler) ↔ LateInvoked s ∧ ¬ Lost s (.onGoaway handler) := by
  cases hreceived : s.goawayReceived with
  | none =>
    have hkept : ¬ Lost s (.onGoaway handler) := by simp [Lost, hreceived]
    rw [onGoaway_waiting hreceived]
    refine ⟨fun hl => ⟨fun r hr => hl r (mem_cons_of_mem _ hr), hkept⟩, fun ⟨hl, _⟩ => ?_⟩
    exact forall_mem_cons.mpr ⟨nofun, hl⟩
  | some g =>
    cases hfired : s.goawayFired with
    | false =>
      have hkept : ¬ Lost s (.onGoaway handler) := by simp [Lost, hfired]
      rw [onGoaway_first hreceived hfired, h.unfired hfired]
      have hsame : ∀ r ∈ s.registered,
          (r.id ∈ (if handler then [(s.registered.length, g)] else []).map Prod.fst ↔
            Invoked s r.id) := by
        intro r hr
        have hlt := h.numbered.lt r hr
        have hne : r.id ≠ s.registered.length := by omega
        cases handler <;> simp [Invoked, h.unfired hfired, hne]
      constructor
      · intro hl
        refine ⟨fun r hr hlate hhandler => ?_, hkept⟩
        exact (hsame r hr).mp (hl r (mem_cons_of_mem _ hr) hlate hhandler)
      · intro ⟨hl, _⟩
        refine forall_mem_cons.mpr ⟨fun _ (hhandler : handler = true) => ?_, ?_⟩
        · rw [hhandler]
          exact mem_singleton_self _
        · exact fun r hr hlate hhandler => (hsame r hr).mpr (hl r hr hlate hhandler)
    | true =>
      rw [onGoaway_fired hreceived hfired]
      constructor
      · intro hl
        refine ⟨fun r hr => hl r (mem_cons_of_mem _ hr), fun ⟨ha, _⟩ => ?_⟩
        cases ha
        exact h.not_invoked_length (hl _ mem_cons_self rfl rfl)
      · intro ⟨hl, hkept⟩
        refine forall_mem_cons.mpr ⟨fun _ (hhandler : handler = true) => ?_, hl⟩
        exact absurd ⟨by rw [hhandler], by rw [hreceived]; rfl, hfired⟩ hkept

theorem lateInvoked_step {a : Action} (hs : step s a = some s') :
    LateInvoked s' ↔ LateInvoked s ∧ ¬ Lost s a := by
  cases a with
  | onGoaway handler =>
    cases hs
    exact lateInvoked_onGoaway h handler
  | goaway m =>
    cases hs
    have hkept : ¬ Lost s (.goaway m) := nofun
    cases hm : handleGoaway s m with
    | error err => exact ⟨fun hl => ⟨hl, hkept⟩, And.left⟩
    | ok s' =>
      -- nothing is late before the GOAWAY
      obtain ⟨hnone, rfl⟩ := handleGoaway_ok h hm
      obtain ⟨-, -, hlate⟩ := h.waiting hnone
      have hnever : ∀ r ∈ s.registered, r.late ≠ true := fun r hr => by simp [hlate r hr]
      exact ⟨fun _ => ⟨fun r hr hl => absurd hl (hnever r hr), hkept⟩,
        fun _ r hr hl => absurd hl (hnever r hr)⟩

end

/-- **`OnGoaway` is level-triggered exactly if no handler is registered when the flag is set.** In
    every run each handler runs at most once, and one that ran was registered and got the GOAWAY;
    the last handler registered before the GOAWAY runs if and only if it is not nil; and every
    handler registered after the GOAWAY runs if and only if no call goes wrong. -/
theorem onGoaway_level_triggered_iff (role : Role) {acts : List Action} {s : State}
    (hrun : Lib.run step (init role) acts = some s) :
    (s.invoked.map Prod.fst).Nodup ∧
    (∀ p ∈ s.invoked, s.goawayReceived = some p.2 ∧
      ∃ r ∈ s.registered, r.id = p.1 ∧ r.handler = true) ∧
    (s.goawayReceived.isSome = true → ∀ r, lastBefore s = some r →
      (Invoked s r.id ↔ r.handler = true)) ∧
    ((∀ r ∈ s.registered, r.late = true → r.handler = true → Invoked s r.id) ↔
      Lib.Along step (fun s a => ¬ Lost s a) (init role) acts) := by
  have hinv : Inv s := Lib.run_inv (fun _ _ _ h hs => h.step hs) (.init role) hrun
  refine ⟨?_, hinv.registered, hinv.arrived, ?_⟩
  · have honce := hinv.once
    rw [← length_map Prod.fst] at honce
    match s.invoked.map Prod.fst, honce with
    | [], _ => exact nodup_nil
    | [id], _ => exact nodup_singleton id
  · have hiff := Lib.run_iff_along (fun _ _ _ h hs => Inv.step h hs)
      (fun _ _ _ h hs => lateInvoked_step h hs) (.init role) hrun
    exact hiff.trans ⟨And.right, fun h => ⟨nofun, h⟩⟩

/-- A GOAWAY that leaves the timing to the peer. -/
def plainGoaway : Goaway := ⟨[], 0⟩

theorem onGoaway_level_triggered_once :
    ∃ s, Lib.run step (init .client) [.goaway plainGoaway, .onGoaway true] = some s ∧
      s.invoked.map Prod.fst = [0] ∧
      ((∀ r ∈ s.registered, r.late = true → r.handler = true → Invoked s r.id) ↔
        Lib.Along step (fun s a => ¬ Lost s a) (init .client)
          [.goaway plainGoaway, .onGoaway true]) := by
  have hrun : Lib.run step (init .client) [.goaway plainGoaway, .onGoaway true] = some _ := rfl
  exact ⟨_, hrun, rfl, (onGoaway_level_triggered_iff .client hrun).2.2.2⟩

/-- The first handler runs when the GOAWAY arrives; the second is registered after it and does not
    run. Nor does a handler that comes after a late nil. -/
theorem late_handler_lost :
    (Lib.run step (init .client) [.onGoaway true, .goaway plainGoaway, .onGoaway true]).map
        (fun s => (s.registered, s.invoked.map Prod.fst)) =
      some ([⟨1, true, true⟩, ⟨0, true, false⟩], [0]) ∧
    (Lib.run step (init .client) [.goaway plainGoaway, .onGoaway false, .onGoaway true]).map
        (fun s => (s.registered, s.invoked.map Prod.fst)) =
      some ([⟨1, true, true⟩, ⟨0, false, true⟩], []) := by
  decide

end GoawayHandler
end MoqGo.Session
