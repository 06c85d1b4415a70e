import MoqGo.Message.RangeFilter

/-!
# Delivery timeouts (`pkg/moqt/message/timeout.go`)

A delivery timeout arrives as a varint of milliseconds, from the publisher as a Property and from
the subscriber as a Parameter, and 0 means none (§5.2). Durations are the signed 64-bit
nanoseconds of `time.Duration`: **the multiplication wraps**. Up to `maxMilliseconds` it does not,
and the effective timeout is the smaller of the two that are there (`toInt_effectiveMs`). One
millisecond more is a negative duration, and 2⁵⁸ of them are none at all (`timeout_wraps`).
-/

namespace MoqGo.Message

open Wire UInt64

/-- `time.Duration`, in nanoseconds. -/
abbrev Duration := Int64

def propertyObjectDeliveryTimeout : UInt64 := 0x02
def propertySubgroupDeliveryTimeout : UInt64 := 0x06

/-- `MillisecondTimeout`. -/
def millisecondTimeout (ms : UInt64) : Duration := ms.toInt64 * 1000000

/-- `DeliveryTimeouts`. -/
structure DeliveryTimeouts where
  object : Duration := 0
  subgroup : Duration := 0
deriving DecidableEq, Repr, Inhabited

/-- `effectiveDim`. -/
def effectiveDim (publisher subscriber : Duration) : Duration :=
  if publisher = 0 then subscriber
  else if subscriber = 0 then publisher
  else if publisher ≤ subscriber then publisher
  else subscriber

namespace DeliveryTimeouts

/-- `Effective`: `d` is the publisher's pair, `sub` the subscriber's. -/
def effective (d sub : DeliveryTimeouts) : DeliveryTimeouts :=
  ⟨effectiveDim d.object sub.object, effectiveDim d.subgroup sub.subgroup⟩

/-- One pair in the loop of `ApplyObjectProperties`. -/
def applyPair (d : DeliveryTimeouts) (kv : KVPair) : DeliveryTimeouts :=
  if kv.type = propertyObjectDeliveryTimeout then
    { d with object := millisecondTimeout kv.intVal }
  else if kv.type = propertySubgroupDeliveryTimeout then
    { d with subgroup := millisecondTimeout kv.intVal }
  else d

/-- `ApplyObjectProperties`. The loop goes backwards, so the mutable value wins (§10.7). -/
def applyObjectProperties (d : DeliveryTimeouts) (rawProps : List UInt8) : DeliveryTimeouts :=
  match parseSearchable rawProps with
  | .error _ => d
  | .ok pairs => pairs.reverse.foldl applyPair d

end DeliveryTimeouts

/-! ## The arithmetic -/

/-- The largest `time.Duration`, in nanoseconds. -/
def maxDuration : Int := 9223372036854775807

/-- The most milliseconds a `time.Duration` holds. -/
def maxMilliseconds : UInt64 := 9223372036854

/-- One dimension of `Effective`, for `p` milliseconds of the publisher and `s` of the
    subscriber. -/
def effectiveMs (p s : UInt64) : Duration :=
  effectiveDim (millisecondTimeout p) (millisecondTimeout s)

/-- The smaller of the two that are there (§5.2). -/
def smallerNonzero (p s : Nat) : Nat := if p = 0 then s else if s = 0 then p else min p s

theorem toInt_millisecondTimeout {ms : UInt64} (h : ms ≤ maxMilliseconds) :
    (millisecondTimeout ms).toInt = ms.toNat * 1000000 := by
  have hle : ms.toNat ≤ 9223372036854 := le_iff_toNat_le.mp h
  have hms : ms.toInt64.toInt = ms.toNat := by
    refine BitVec.toInt_eq_toNat_of_lt ?_
    rw [toBitVec_toInt64, toNat_toBitVec]
    omega
  have hfactor : (1000000 : Int64).toInt = 1000000 := rfl
  rw [millisecondTimeout, Int64.toInt_mul, hms, hfactor]
  exact Int.bmod_eq_of_le (by omega) (by omega)

/-- **Up to `maxMilliseconds` the effective timeout is the smaller one that is there.** -/
theorem toInt_effectiveMs {p s : UInt64} (hp : p ≤ maxMilliseconds) (hs : s ≤ maxMilliseconds) :
    (effectiveMs p s).toInt = smallerNonzero p.toNat s.toNat * 1000000 := by
  have hp' := toInt_millisecondTimeout hp
  have hs' := toInt_millisecondTimeout hs
  have hzero : ∀ d : Duration, d = 0 ↔ d.toInt = 0 := fun d => Int64.toInt_inj.symm
  unfold effectiveMs effectiveDim smallerNonzero
  simp only [hzero, Int64.le_iff_toInt_le, hp', hs']
  split_ifs <;> omega

/-- What the effective timeout should be for values up to `limit`. -/
structure Faithful (limit : UInt64) : Prop where
  zero_iff : ∀ p s, p ≤ limit → s ≤ limit → (effectiveMs p s = 0 ↔ p = 0 ∧ s = 0)
  nonneg : ∀ p s, p ≤ limit → s ≤ limit → 0 ≤ effectiveMs p s
  not_shorter : ∀ p s, p ≤ limit → s ≤ limit → p ≠ 0 ∨ s ≠ 0 →
    min ((smallerNonzero p.toNat s.toNat : Int) * 1000000) maxDuration ≤ (effectiveMs p s).toInt
  mono_publisher : ∀ p p' s, p' ≤ limit → s ≤ limit → p ≠ 0 → p ≤ p' →
    effectiveMs p s ≤ effectiveMs p' s
  mono_subscriber : ∀ p s s', p ≤ limit → s' ≤ limit → s ≠ 0 → s ≤ s' →
    effectiveMs p s ≤ effectiveMs p s'

theorem smallerNonzero_eq_zero {p s : Nat} : smallerNonzero p s = 0 ↔ p = 0 ∧ s = 0 := by
  unfold smallerNonzero
  split_ifs <;> omega

theorem smallerNonzero_comm (p s : Nat) : smallerNonzero p s = smallerNonzero s p := by
  unfold smallerNonzero
  split_ifs <;> omega

theorem smallerNonzero_mono {p p' s : Nat} (hp : p ≠ 0) (hle : p ≤ p') :
    smallerNonzero p s ≤ smallerNonzero p' s := by
  unfold smallerNonzero
  split_ifs <;> omega

theorem faithful_maxMilliseconds {limit : UInt64} (h : limit ≤ maxMilliseconds) :
    Faithful limit := by
  have heq : ∀ p s, p ≤ limit → s ≤ limit →
      (effectiveMs p s).toInt = smallerNonzero p.toNat s.toNat * 1000000 :=
    fun p s hp hs => toInt_effectiveMs (UInt64.le_trans hp h) (UInt64.le_trans hs h)
  have hnat : ∀ {x : UInt64}, x ≠ 0 → x.toNat ≠ 0 := fun hx hzero => hx (UInt64.toNat_inj.mp hzero)
  refine ⟨fun p s hp hs => ?_, fun p s hp hs => ?_, fun p s hp hs _ => ?_,
    fun p p' s hp' hs hne hle => ?_, fun p s s' hp hs' hne hle => ?_⟩
  · rw [← Int64.toInt_inj, heq p s hp hs, ← UInt64.toNat_inj, ← UInt64.toNat_inj]
    have hzero := @smallerNonzero_eq_zero p.toNat s.toNat
    simp only [Int64.toInt_zero, UInt64.toNat_zero]
    omega
  · rw [Int64.le_iff_toInt_le, heq p s hp hs, Int64.toInt_zero]
    omega
  · rw [heq p s hp hs]
    exact min_le_left _ _
  · rw [Int64.le_iff_toInt_le, heq p s (UInt64.le_trans hle hp') hs, heq p' s hp' hs]
    have hmono := smallerNonzero_mono (s := s.toNat) (hnat hne) (le_iff_toNat_le.mp hle)
    omega
  · rw [Int64.le_iff_toInt_le, heq p s hp (UInt64.le_trans hle hs'), heq p s' hp hs',
      smallerNonzero_comm, smallerNonzero_comm p.toNat]
    have hmono := smallerNonzero_mono (s := p.toNat) (hnat hne) (le_iff_toNat_le.mp hle)
    omega

/-- **The arithmetic is right exactly up to `maxMilliseconds`**, in both dimensions. -/
theorem effective_faithful_iff (limit : UInt64) :
    (∀ p p' s s', DeliveryTimeouts.effective ⟨millisecondTimeout p, millisecondTimeout p'⟩
        ⟨millisecondTimeout s, millisecondTimeout s'⟩ = ⟨effectiveMs p s, effectiveMs p' s'⟩) ∧
      (Faithful limit ↔ limit ≤ maxMilliseconds) := by
  refine ⟨fun _ _ _ _ => rfl, ⟨fun h => ?_, faithful_maxMilliseconds⟩⟩
  by_contra hlarge
  -- the first value that wraps is negative
  have hwraps : maxMilliseconds + 1 ≤ limit := by
    rw [UInt64.not_le, UInt64.lt_iff_toNat_lt] at hlarge
    exact le_iff_toNat_le.mpr hlarge
  have hneg := h.nonneg (maxMilliseconds + 1) 0 hwraps (le_iff_toNat_le.mpr (Nat.zero_le _))
  exact absurd hneg (by decide)

/-- 2⁵⁸ milliseconds are no timeout, 10¹³ are a negative one, which is then the smaller one too, and
    an enlarged value can come out shorter. -/
theorem timeout_wraps :
    effectiveMs 0x400000000000000 0 = 0 ∧ effectiveMs 10000000000000 5 < 0 ∧
      effectiveMs 18446744073710 0 < effectiveMs 1 0 := by
  decide

end MoqGo.Message
