import MoqGo.Lib.Runs
import MoqGo.Relay.TrackEntry

/-!
# NEW_GROUP_REQUEST (`pkg/relay/internal/registry/track_entry.go`)

A subscriber can ask for a new Group. The relay passes a request on unless the track is past the
Group asked for, or a request it passed on before covers it; that one is outstanding until the
Largest Group increases (§9.20.19). The rule is about what happened since then: `Rule` states it
over the history of a run.

`ConsiderNewGroupRequest` keeps the last request it passed on, and the Largest Group at that time,
and clears the request when it finds the Largest Group increased. **A track without Objects has the
Largest Group 0 there**, so a first Object in Group 0 is no increase, and a request passed on before
it stays outstanding (`stale_request_covers`). That is the only difference
(`newGroupRequest_rule_iff`).
-/

namespace MoqGo.Relay

open Message

/-- `TrackEntry`, with the request that is outstanding. -/
structure NewGroupEntry (S : Type) extends TrackEntry S where
  newGroupOutstanding : Bool := false
  newGroupReqValue : UInt64 := 0
  newGroupReqGroup : UInt64 := 0

namespace NewGroupEntry

variable {S : Type}

def largestGroup (e : NewGroupEntry S) : UInt64 :=
  if e.hasLargestObject then e.largestObject.group else 0

/-- `ConsiderNewGroupRequest`, of a request that is cleared once the Largest Group is past it. -/
def clearNewGroup (e : NewGroupEntry S) : NewGroupEntry S :=
  if e.newGroupOutstanding && decide (e.newGroupReqGroup < e.largestGroup) then
    { e with newGroupOutstanding := false }
  else e

/-- `ConsiderNewGroupRequest`: the entry, and whether the request is passed on. -/
def considerNewGroupRequest (e : NewGroupEntry S) (value : UInt64) (dynamicGroups : Bool) :
    NewGroupEntry S × Bool :=
  if !dynamicGroups then (e, false)
  else
    let largest := e.largestGroup
    let e := e.clearNewGroup
    if value ≠ 0 ∧ value ≤ largest then (e, false)
    else if e.newGroupOutstanding ∧ value ≤ e.newGroupReqValue then (e, false)
    else
      ({ e with newGroupOutstanding := true, newGroupReqValue := value,
                newGroupReqGroup := largest }, true)

theorem considerNewGroupRequest_iff (e : NewGroupEntry S) (value : UInt64) :
    (e.considerNewGroupRequest value true).2 = true ↔
      (value = 0 ∨ e.largestGroup < value) ∧
        ¬ (e.newGroupOutstanding = true ∧ ¬ e.newGroupReqGroup < e.largestGroup ∧
          value ≤ e.newGroupReqValue) := by
  unfold considerNewGroupRequest clearNewGroup
  grind

/-- What a request does to the entry: it is kept if it is passed on, and otherwise the one before
    it at most cleared. -/
theorem considerNewGroupRequest_eq (e : NewGroupEntry S) (value : UInt64) (dynamicGroups : Bool) :
    e.considerNewGroupRequest value dynamicGroups =
        ({ e with newGroupOutstanding := true, newGroupReqValue := value,
                  newGroupReqGroup := e.largestGroup }, true) ∨
      e.considerNewGroupRequest value dynamicGroups = (e, false) ∨
      e.considerNewGroupRequest value dynamicGroups = (e.clearNewGroup, false) := by
  have hkeep : { e.clearNewGroup with newGroupOutstanding := true, newGroupReqValue := value,
                                      newGroupReqGroup := e.largestGroup } =
      { e with newGroupOutstanding := true, newGroupReqValue := value,
               newGroupReqGroup := e.largestGroup } := by
    unfold clearNewGroup
    split_ifs <;> rfl
  cases dynamicGroups with
  | false => exact .inr (.inl rfl)
  | true =>
    simp only [considerNewGroupRequest, Bool.not_true, Bool.false_eq_true, if_false]
    split_ifs
    · exact .inr (.inr rfl)
    · exact .inr (.inr rfl)
    · exact .inl (congrArg (·, true) hkeep)

/-- `UpdateLargest`. -/
def updateLargest (e : NewGroupEntry S) (loc : Location) : NewGroupEntry S :=
  { e with toTrackEntry := e.toTrackEntry.updateLargest loc }

/-- `UpdateLargestAndDetectNew`, its effect. -/
def updateLargestAndDetectNew (e : NewGroupEntry S) (loc : Location) (seen : SubID → Bool)
    (lastGen : Nat) : NewGroupEntry S :=
  { e with toTrackEntry := (e.toTrackEntry.updateLargestAndDetectNew loc seen lastGen).1 }

theorem hasLargestObject_updateLargest (e : NewGroupEntry S) (loc : Location) :
    (e.updateLargest loc).hasLargestObject = true := by
  unfold updateLargest TrackEntry.updateLargest
  split_ifs with hless
  · rfl
  · simp only [Bool.or_eq_true, Bool.not_eq_true', not_or, Bool.not_eq_false] at hless
    exact hless.1

theorem largestGroup_updateLargest (e : NewGroupEntry S) (loc : Location) :
    (e.updateLargest loc).largestGroup =
      if !e.hasLargestObject || decide (e.largestObject.group < loc.group) then loc.group
      else e.largestGroup := by
  unfold largestGroup
  unfold updateLargest TrackEntry.updateLargest
  have hless := @Location.less_lex e.largestObject loc
  grind

theorem updateLargestAndDetectNew_eq (e : NewGroupEntry S) (loc : Location) (seen : SubID → Bool)
    (lastGen : Nat) : e.updateLargestAndDetectNew loc seen lastGen = e.updateLargest loc := by
  unfold updateLargestAndDetectNew updateLargest TrackEntry.updateLargestAndDetectNew
  simp only
  split_ifs <;> rfl

end NewGroupEntry

/-! ## Runs -/

inductive NewGroupAction
  | request (value : UInt64) (dynamicGroups : Bool)
  | updateLargest (loc : Location)
  | updateLargestAndDetectNew (loc : Location) (seen : SubID → Bool) (lastGen : Nat)

/-- What a run records: a request passed on, and an increase of the Largest Group. -/
inductive NewGroupEvent
  | forwarded (value : UInt64)
  | increased
deriving DecidableEq, Repr

/-- A track's entry and its history, newest first. -/
structure NewGroupRun (S : Type) where
  entry : NewGroupEntry S := {}
  log : List NewGroupEvent := []

namespace NewGroupRun

variable {S : Type} {t : NewGroupRun S}

/-- The Largest Object is moved on to `loc`. The first Object counts as an increase. -/
def grow (t : NewGroupRun S) (entry : NewGroupEntry S) (loc : Location) : NewGroupRun S where
  entry := entry
  log :=
    if !t.entry.hasLargestObject || decide (t.entry.largestObject.group < loc.group) then
      .increased :: t.log
    else t.log

def step (t : NewGroupRun S) : NewGroupAction → Option (NewGroupRun S)
  | .request value dynamicGroups =>
    match t.entry.considerNewGroupRequest value dynamicGroups with
    | (entry, true) => some { entry := entry, log := .forwarded value :: t.log }
    | (entry, false) => some { t with entry := entry }
  | .updateLargest loc => some (t.grow (t.entry.updateLargest loc) loc)
  | .updateLargestAndDetectNew loc seen lastGen =>
    some (t.grow (t.entry.updateLargestAndDetectNew loc seen lastGen) loc)

/-- The values passed on since the Largest Group last increased. -/
def since : List NewGroupEvent → List UInt64
  | [] => []
  | .forwarded value :: log => value :: since log
  | .increased :: _ => []

/-- **The rule** (§9.20.19): the request asks for a Group the track is not past, and nothing as
    large was passed on since the Largest Group last increased. -/
def Rule (t : NewGroupRun S) (value : UInt64) : Prop :=
  (t.entry.hasLargestObject = false ∨ value = 0 ∨ t.entry.largestObject.group < value) ∧
    ∀ w ∈ since t.log, w < value

/-- **The request that is held back wrongly**: all Objects of the track are in Group 0, nothing was
    passed on since the first of them, and what was passed on before it is as large. -/
def Stale (t : NewGroupRun S) (value : UInt64) : Prop :=
  t.entry.hasLargestObject = true ∧ t.entry.largestObject.group = 0 ∧ since t.log = [] ∧
    t.entry.newGroupOutstanding = true ∧ value ≤ t.entry.newGroupReqValue

instance (t : NewGroupRun S) (value : UInt64) : Decidable (t.Stale value) :=
  inferInstanceAs (Decidable (_ ∧ _))

instance (t : NewGroupRun S) (value : UInt64) : Decidable (t.Rule value) :=
  -- over the list, not over all 64-bit values
  have := List.decidableBAll (· < value) (since t.log)
  inferInstanceAs (Decidable (_ ∧ _))

/-! ## The request that is kept -/

/-- What the entry keeps of the history. -/
structure Inv (t : NewGroupRun S) : Prop where
  le_largest : t.entry.newGroupOutstanding = true →
    t.entry.newGroupReqGroup ≤ t.entry.largestGroup
  /-- It is the largest that was passed on since the Largest Group increased. -/
  kept : since t.log ≠ [] → t.entry.newGroupOutstanding = true ∧
    t.entry.newGroupReqGroup = t.entry.largestGroup ∧ t.entry.newGroupReqValue ∈ since t.log ∧
    ∀ w ∈ since t.log, w ≤ t.entry.newGroupReqValue
  /-- If nothing was, it is seen to be past, but for a first Object in Group 0. -/
  past : since t.log = [] → t.entry.newGroupOutstanding = true →
    t.entry.newGroupReqGroup < t.entry.largestGroup ∨
      t.entry.hasLargestObject = true ∧ t.entry.largestGroup = 0

theorem Inv.init : Inv ({} : NewGroupRun S) :=
  ⟨nofun, fun h => absurd rfl h, nofun⟩

/-- **One request**: code and rule agree exactly if it is not held back wrongly. -/
theorem Inv.rule_iff (h : Inv t) (value : UInt64) :
    ((t.entry.considerNewGroupRequest value true).2 = true ↔ t.Rule value) ↔ ¬ t.Stale value := by
  rw [NewGroupEntry.considerNewGroupRequest_iff]
  have hasks : (value = 0 ∨ t.entry.largestGroup < value) ↔
      (t.entry.hasLargestObject = false ∨ value = 0 ∨ t.entry.largestObject.group < value) := by
    unfold NewGroupEntry.largestGroup
    grind
  rw [hasks]
  unfold Rule Stale
  by_cases hsince : since t.log = []
  · have hpast := h.past hsince
    unfold NewGroupEntry.largestGroup at *
    grind
  · obtain ⟨hout, hgroup, hmem, hmax⟩ := h.kept hsince
    have hcovers : (∀ w ∈ since t.log, w < value) ↔ ¬ value ≤ t.entry.newGroupReqValue := by
      constructor
      · intro hall
        rw [UInt64.not_le]
        exact hall _ hmem
      · intro hlt w hw
        exact UInt64.lt_of_le_of_lt (hmax w hw) (UInt64.not_le.mp hlt)
    rw [hcovers, hgroup]
    simp [hout, hsince, UInt64.lt_irrefl]

theorem Inv.clear (h : Inv t) : Inv { t with entry := t.entry.clearNewGroup } := by
  unfold NewGroupEntry.clearNewGroup
  split_ifs with hclear
  · simp only [Bool.and_eq_true, decide_eq_true_eq] at hclear
    refine ⟨nofun, fun hsince => ?_, fun _ => nofun⟩
    -- what was passed on since the increase is not past
    obtain ⟨-, hgroup, -⟩ := h.kept hsince
    rw [hgroup] at hclear
    exact absurd hclear.2 (UInt64.lt_irrefl _)
  · exact h

theorem Inv.request {t' : NewGroupRun S} {value : UInt64} {dynamicGroups : Bool} (h : Inv t)
    (hs : t.step (.request value dynamicGroups) = some t') : Inv t' := by
  have hrule := NewGroupEntry.considerNewGroupRequest_iff t.entry value
  simp only [step] at hs
  rcases t.entry.considerNewGroupRequest_eq value dynamicGroups with heq | heq | heq
  · have hforward : (t.entry.considerNewGroupRequest value true).2 = true := by
      cases dynamicGroups with
      | true => rw [heq]
      | false => exact absurd (congrArg Prod.snd heq) Bool.false_ne_true
    obtain ⟨-, hcovered⟩ := hrule.mp hforward
    rw [heq] at hs
    cases hs
    refine ⟨fun _ => UInt64.le_refl _, fun _ => ⟨rfl, rfl, List.mem_cons_self, ?_⟩, nofun⟩
    intro w hw
    rcases List.mem_cons.mp hw with rfl | hw
    · exact UInt64.le_refl _
    · -- what was passed on before did not cover this request
      obtain ⟨hout, hgroup, -, hmax⟩ := h.kept (List.ne_nil_of_mem hw)
      have hless : t.entry.newGroupReqValue < value := by
        by_contra hle
        exact hcovered ⟨hout, by rw [hgroup]; exact UInt64.lt_irrefl _, UInt64.not_lt.mp hle⟩
      exact UInt64.le_of_lt (UInt64.lt_of_le_of_lt (hmax w hw) hless)
  · rw [heq] at hs
    cases hs
    exact h
  · rw [heq] at hs
    cases hs
    exact h.clear

theorem Inv.grow (h : Inv t) (loc : Location) : Inv (t.grow (t.entry.updateLargest loc) loc) := by
  have hlargest := t.entry.largestGroup_updateLargest loc
  have hhas := t.entry.hasLargestObject_updateLargest loc
  have hle := h.le_largest
  unfold NewGroupRun.grow
  split_ifs with hgrew
  · have hgap : t.entry.largestGroup < loc.group ∨ t.entry.largestGroup = 0 := by
      unfold NewGroupEntry.largestGroup
      cases hsome : t.entry.hasLargestObject with
      | false => exact .inr (if_neg Bool.false_ne_true)
      | true => exact .inl (by simpa [hsome] using hgrew)
    refine ⟨fun (hout : t.entry.newGroupOutstanding = true) => ?_, fun hne => absurd rfl hne,
      fun _ (hout : t.entry.newGroupOutstanding = true) => ?_⟩
    · show t.entry.newGroupReqGroup ≤ (t.entry.updateLargest loc).largestGroup
      grind
    · show t.entry.newGroupReqGroup < (t.entry.updateLargest loc).largestGroup ∨
        (t.entry.updateLargest loc).hasLargestObject = true ∧
          (t.entry.updateLargest loc).largestGroup = 0
      grind
  · rw [if_neg hgrew] at hlargest
    refine ⟨fun hout => ?_, fun hsince => ?_, fun hsince hout => ?_⟩
    · rw [hlargest]
      exact h.le_largest hout
    · rw [hlargest]
      exact h.kept hsince
    · rw [hlargest]
      exact (h.past hsince hout).imp_right fun hzero => ⟨hhas, hzero.2⟩

theorem Inv.step {t' : NewGroupRun S} {a : NewGroupAction} (h : Inv t) (hs : t.step a = some t') :
    Inv t' := by
  cases a with
  | request value dynamicGroups => exact h.request hs
  | updateLargest loc =>
    cases hs
    exact h.grow loc
  | updateLargestAndDetectNew loc seen lastGen =>
    cases hs
    rw [NewGroupEntry.updateLargestAndDetectNew_eq]
    exact h.grow loc

/-- **NEW_GROUP_REQUEST follows its rule exactly if it is not held back wrongly**, for every request
    in every run. -/
theorem newGroupRequest_rule_iff {acts : List NewGroupAction} {t : NewGroupRun S}
    (hrun : Lib.run step {} acts = some t) (value : UInt64) :
    ((t.entry.considerNewGroupRequest value true).2 = true ↔
      (t.entry.hasLargestObject = false ∨ value = 0 ∨ t.entry.largestObject.group < value) ∧
        ∀ w ∈ since t.log, w < value) ↔
      ¬ t.Stale value := by
  have hinv : Inv t := Lib.run_inv (fun _ _ _ h hs => h.step hs) .init hrun
  exact hinv.rule_iff value

def threeRequests : List NewGroupAction :=
  [.updateLargest ⟨1, 0⟩, .request 4 true, .request 3 true, .updateLargest ⟨2, 0⟩, .request 3 true]

theorem newGroupRequest_rule_three :
    ∃ t : NewGroupRun Unit, Lib.run step {} threeRequests = some t ∧
      t.log = [.forwarded 3, .increased, .forwarded 4, .increased] ∧
      (t.entry.considerNewGroupRequest 4 true).2 = true ∧ ¬ t.Stale 4 ∧
      ((t.entry.considerNewGroupRequest 4 true).2 = true ↔
        (t.entry.hasLargestObject = false ∨ (4 : UInt64) = 0 ∨ t.entry.largestObject.group < 4) ∧
          ∀ w ∈ since t.log, w < 4) := by
  have hrun : Lib.run step ({} : NewGroupRun Unit) threeRequests = some _ := rfl
  have hfresh := (newGroupRequest_rule_iff hrun 4).mpr (by decide)
  exact ⟨_, hrun, rfl, by decide, by decide, hfresh⟩

/-- A request for 5 is passed on before the first Object, which is in Group 0. A request for 3 is
    then held back, though nothing was passed on since that increase. -/
theorem stale_request_covers :
    ∃ t : NewGroupRun Unit,
      Lib.run step {} [.request 5 true, .updateLargest ⟨0, 0⟩] = some t ∧
      t.log = [.increased, .forwarded 5] ∧ (t.entry.considerNewGroupRequest 3 true).2 = false ∧
      t.Rule 3 := by
  have hrun : Lib.run step ({} : NewGroupRun Unit) [.request 5 true, .updateLargest ⟨0, 0⟩] =
    some _ := rfl
  exact ⟨_, hrun, rfl, by decide, by decide⟩

end NewGroupRun
end MoqGo.Relay
