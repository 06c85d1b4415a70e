import Mathlib.Algebra.Group.Nat.Defs
import Mathlib.Data.Prod.Lex
import MoqGo.Lib.Prefer

/-!
# Which refusal the subscriber gets (`pkg/relay/handler_subscribe.go`)

An upstream SUBSCRIBE goes to every candidate, and when all of them fail the subscriber gets one
answer. Of two candidates' errors `preferCandidateErr` keeps one: by rank, then by how soon it
allows a retry, then by code. That is the greater of the two by **one key** (`candidateKey`), a
linear order, so the answer does not depend on the order in which candidates answer. Retry
Interval 0 ("should not be retried") and code 0 (`INTERNAL_ERROR`) come last in theirs, and below
them the lower is the better, so one function orders both.
-/

namespace MoqGo.Relay

/-- The codes of a REQUEST_ERROR that the relay looks at (`moqt.RequestErrorCode`). -/
def requestInternalError : UInt64 := 0x0
def requestTimeout : UInt64 := 0x2
def requestGoingAway : UInt64 := 0x6
def requestExcessiveLoad : UInt64 := 0x9
def requestDoesNotExist : UInt64 := 0x10
def requestUnsupportedExtension : UInt64 := 0x33

/-- A candidate's error, by what `errors.Is` and `errors.AsType` find in it. -/
inductive CandidateErr
  /-- `errGoingAway`. -/
  | goingAway
  /-- `session.ErrNoStreamCredit`. -/
  | noStreamCredit
  /-- `session.ErrUnsupportedMandatoryTrackProperty`. -/
  | unsupportedMandatoryTrackProperty
  /-- `session.ErrMalformedTrackProperties`. -/
  | malformedTrackProperties
  /-- Any other: a stream reset, a FIN, the session ending. -/
  | transport
  /-- `session.RequestRejectedError`. -/
  | rejected (code retryInterval : UInt64)
deriving DecidableEq, Repr

namespace CandidateErr

/-- `isTrackPropertiesErr`. -/
def isTrackPropertiesErr : CandidateErr → Bool
  | unsupportedMandatoryTrackProperty => true
  | malformedTrackProperties => true
  | _ => false

/-- `errors.AsType[*session.RequestRejectedError]`: code and Retry Interval. -/
def asRejected : CandidateErr → Option (UInt64 × UInt64)
  | rejected code retryInterval => some (code, retryInterval)
  | _ => none

/-- `transportFailure`. -/
def transportFailure (err : CandidateErr) : Bool :=
  if err == goingAway || err.isTrackPropertiesErr || err == noStreamCredit then false
  else err.asRejected.isNone

end CandidateErr

/-- `awaitsPublisher`. -/
def awaitsPublisher : Option CandidateErr → Bool
  | none => true
  | some err =>
    if err == .goingAway || err.transportFailure then true
    else
      match err.asRejected with
      | none => false
      | some (code, _) =>
        code == requestDoesNotExist || code == requestTimeout || code == requestGoingAway

/-- `candidateErrRank`. -/
def candidateErrRank : Option CandidateErr → Nat
  | none => 0
  | some err =>
    if err = .unsupportedMandatoryTrackProperty then 6
    else if err.isTrackPropertiesErr then 5
    else if !awaitsPublisher (some err) then 4
    else if err = .goingAway then 3
    else
      match err.asRejected with
      | none => 1
      | some (code, _) =>
        if code = requestGoingAway then 3
        else if code = requestTimeout then 2
        else 1

/-- `goingAwayRetry`, in milliseconds: the most its jitter can make of `goingAwayRetryAfter`. -/
def goingAwayRetry : UInt64 := 1500

/-- `excessiveLoadRetryMax`, in milliseconds. -/
def excessiveLoadRetryMax : UInt64 := 1500

/-- `candidateRetry`. -/
def candidateRetry : Option CandidateErr → UInt64
  | none => 0
  | some .goingAway => goingAwayRetry
  | some .noStreamCredit => excessiveLoadRetryMax
  | some err =>
    match err.asRejected with
    | none => 0
    | some (code, retryInterval) =>
      if code = requestGoingAway ∧ retryInterval = 0 then goingAwayRetry else retryInterval

/-- `session.RequestRejectedError`. -/
structure RequestRejected where
  code : UInt64
  retryInterval : UInt64 := 0
deriving DecidableEq, Repr

/-- `upstreamRejection`; `retryIntervalAfter` is the jitter on the relay's own waits of a second,
    `goingAwayRetryAfter` and `excessiveLoadRetry`. -/
def upstreamRejection (retryIntervalAfter : UInt64) : Option CandidateErr → RequestRejected
  | none => { code := requestDoesNotExist }
  | some .unsupportedMandatoryTrackProperty => { code := requestUnsupportedExtension }
  | some .malformedTrackProperties => { code := requestInternalError }
  | some .goingAway => { code := requestGoingAway, retryInterval := retryIntervalAfter }
  | some .noStreamCredit => { code := requestExcessiveLoad, retryInterval := retryIntervalAfter }
  | some .transport => { code := requestDoesNotExist }
  | some (.rejected code retryInterval) =>
    if code = requestDoesNotExist ∨ code = requestTimeout ∨ code = requestExcessiveLoad ∨
        code = requestUnsupportedExtension ∨ code = requestGoingAway then
      { code := code
        retryInterval :=
          if code = requestGoingAway ∧ retryInterval = 0 then retryIntervalAfter
          else retryInterval }
    else { code := requestInternalError, retryInterval := retryInterval }

def upstreamRejectionCode (err : Option CandidateErr) : UInt64 := (upstreamRejection 0 err).code

/-- `preferCandidateErr`. -/
def preferCandidateErr (last err : Option CandidateErr) : Option CandidateErr :=
  if candidateErrRank err ≠ candidateErrRank last then
    if candidateErrRank last < candidateErrRank err then err else last
  else if candidateRetry err ≠ candidateRetry last then
    if candidateRetry err ≠ 0 ∧
        (candidateRetry last = 0 ∨ candidateRetry err < candidateRetry last) then err
    else last
  else if upstreamRejectionCode err ≠ upstreamRejectionCode last ∧
      (upstreamRejectionCode last = requestInternalError ∨
        (upstreamRejectionCode err ≠ requestInternalError ∧
          upstreamRejectionCode err < upstreamRejectionCode last)) then err
  else last

/-! ## One key -/

def preference (x : UInt64) : Nat := if x = 0 then 0 else 2 ^ 64 - x.toNat

theorem preference_inj {x y : UInt64} (h : preference x = preference y) : x = y := by
  have hx := x.toNat_lt
  have hy := y.toNat_lt
  rw [← UInt64.toNat_inj]
  unfold preference at h
  simp only [← UInt64.toNat_inj, UInt64.toNat_zero] at h
  split_ifs at h <;> omega

theorem preference_lt_iff {x y : UInt64} :
    preference x < preference y ↔ y ≠ 0 ∧ (x = 0 ∨ y < x) := by
  have hy := y.toNat_lt
  unfold preference
  simp only [ne_eq, ← UInt64.toNat_inj, UInt64.lt_iff_toNat_lt, UInt64.toNat_zero]
  split_ifs <;> omega

/-- What `preferCandidateErr` compares. -/
def candidateKey (err : Option CandidateErr) : Nat ×ₗ Nat ×ₗ Nat :=
  toLex (candidateErrRank err,
    toLex (preference (candidateRetry err), preference (upstreamRejectionCode err)))

variable {a b : Option CandidateErr}

theorem candidateKey_lt_iff : candidateKey a < candidateKey b ↔
      candidateErrRank a < candidateErrRank b ∨ candidateErrRank a = candidateErrRank b ∧
        (preference (candidateRetry a) < preference (candidateRetry b) ∨
          preference (candidateRetry a) = preference (candidateRetry b) ∧
            preference (upstreamRejectionCode a) < preference (upstreamRejectionCode b)) := by
  simp only [candidateKey, Prod.Lex.toLex_lt_toLex]

/-- **The error that is kept** is the one with the greater key, the last on a tie. -/
theorem preferCandidateErr_eq (last err : Option CandidateErr) :
    preferCandidateErr last err = if candidateKey last < candidateKey err then err else last := by
  have hcode : requestInternalError = 0 := rfl
  have hretry : preference (candidateRetry last) = preference (candidateRetry err) ↔
      candidateRetry last = candidateRetry err :=
    ⟨preference_inj, fun h => h ▸ rfl⟩
  unfold preferCandidateErr
  simp only [candidateKey_lt_iff, preference_lt_iff, hretry, hcode]
  grind

theorem candidateKey_prefer (last err : Option CandidateErr) :
    candidateKey (preferCandidateErr last err) = max (candidateKey last) (candidateKey err) := by
  rw [preferCandidateErr_eq, apply_ite candidateKey, max_def_lt]

theorem candidateErrRank_prefer (last err : Option CandidateErr) :
    candidateErrRank (preferCandidateErr last err) =
      max (candidateErrRank last) (candidateErrRank err) := by
  have hlt := candidateKey_lt_iff (a := last) (b := err)
  rw [preferCandidateErr_eq]
  split_ifs with h
  · rw [hlt] at h
    omega
  · rw [hlt] at h
    omega

theorem of_candidateKey (h : candidateKey a = candidateKey b) :
    candidateRetry a = candidateRetry b ∧ upstreamRejectionCode a = upstreamRejectionCode b := by
  have hkey := congrArg (fun k => (ofLex (ofLex k).2)) h
  exact ⟨preference_inj (congrArg Prod.fst hkey), preference_inj (congrArg Prod.snd hkey)⟩

/-- The answers that leave the track without a publisher are those of the three lowest ranks. -/
theorem awaitsPublisher_iff (err : Option CandidateErr) :
    awaitsPublisher err = true ↔ candidateErrRank err ≤ 3 := by
  cases err with
  | none => simp [awaitsPublisher, candidateErrRank]
  | some err =>
    cases err with
    | rejected code retryInterval =>
      simp only [candidateErrRank, CandidateErr.isTrackPropertiesErr, CandidateErr.asRejected]
      cases awaitsPublisher (some (.rejected code retryInterval)) with
      | false => simp
      | true =>
        simp only [reduceCtorEq, if_false, Bool.not_true, Bool.false_eq_true, true_iff]
        split_ifs <;> omega
    | _ => decide

theorem code_upstreamRejection (retryIntervalAfter : UInt64) (err : Option CandidateErr) :
    (upstreamRejection retryIntervalAfter err).code = upstreamRejectionCode err := by
  cases err with
  | none => rfl
  | some err =>
    cases err with
    | rejected code retryInterval =>
      simp only [upstreamRejectionCode, upstreamRejection]
      split_ifs <;> rfl
    | _ => rfl

/-- The error that is left of the candidates', in the order in which they answer. -/
def lastErr (errs : List CandidateErr) : Option CandidateErr :=
  (errs.map some).foldl preferCandidateErr none

/-- **The refusal does not depend on the order of the answers**, and a SUBSCRIBE is held exactly
    if every candidate's answer allows that. -/
theorem refusal_order_independent {errs errs' : List CandidateErr} (h : errs.Perm errs') :
    (∀ jitter jitter', (upstreamRejection jitter (lastErr errs)).code =
      (upstreamRejection jitter' (lastErr errs')).code) ∧
    candidateRetry (lastErr errs) = candidateRetry (lastErr errs') ∧
    (awaitsPublisher (lastErr errs) = true ↔ ∀ err ∈ errs, awaitsPublisher (some err) = true) := by
  have hkey : candidateKey (lastErr errs) = candidateKey (lastErr errs') :=
    Lib.key_foldl_perm candidateKey_prefer (h.map some) none
  obtain ⟨hretry, hcode⟩ := of_candidateKey hkey
  refine ⟨?_, hretry, ?_⟩
  · intro jitter jitter'
    rw [code_upstreamRejection, code_upstreamRejection, hcode]
  · rw [awaitsPublisher_iff, lastErr, Lib.key_foldl candidateErrRank_prefer,
      Lib.foldl_max_le_iff]
    simp only [List.mem_map, forall_exists_index, and_imp, forall_apply_eq_imp_iff₂,
      awaitsPublisher_iff]
    exact and_iff_right (Nat.zero_le _)

/-- Two refusals of one rank that allow no retry, around one of a lower rank. -/
theorem refusal_order_independent_codes :
    upstreamRejectionCode (lastErr [.rejected 0x33 0, .transport, .rejected 0x1 0]) = 0x33 ∧
      ∀ jitter jitter',
        (upstreamRejection jitter
          (lastErr [.rejected 0x33 0, .transport, .rejected 0x1 0])).code =
        (upstreamRejection jitter'
          (lastErr [.rejected 0x1 0, .transport, .rejected 0x33 0])).code :=
  ⟨by decide, (refusal_order_independent (by decide)).1⟩

end MoqGo.Relay
